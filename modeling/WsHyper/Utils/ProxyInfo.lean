import WsHyper.Lib.HeaderText
import WsHyper.Lib.IpAddr
import WsHyper.Lib.Panic
import WsHyper.Lib.Text

/-!
# What proxies say about a request

`ProxyInfo` reads who sent a request from the headers that proxies set, and records it
with the request before the next layer is called.
-/

namespace WsHyper.Utils

open WsHyper.Lib

inductive Proto
  | http
  | https
  | unknown
  | ws
  | wss
  | ftp
  deriving DecidableEq

instance : Inhabited Proto := ⟨.unknown⟩

def Proto.ofText (value : Str) : Proto :=
  if value = "http".toList then .http
  else if value = "https".toList then .https
  else if value = "ws".toList then .ws
  else if value = "wss".toList then .wss
  else if value = "ftp".toList then .ftp
  else .unknown

inductive Ip
  | ip (addr : IpAddr)
  | unknown
  | notDefined
  deriving DecidableEq

instance : Inhabited Ip := ⟨.notDefined⟩

def Ip.ofText (value : Str) : Ip :=
  match IpAddr.parse value with
  | some addr => .ip addr
  | none => if value = "unknown".toList then .unknown else .notDefined

structure Forwarded where
  «for» : Ip
  «by» : Ip
  proto : Proto
  deriving DecidableEq

structure ForwardedBuilder where
  «for» : Option Ip := none
  «by» : Option Ip := none
  proto : Option Proto := none

namespace ForwardedBuilder

def set (builder : ForwardedBuilder) (pair : Str × Str) : ForwardedBuilder :=
  let (key, value) := pair
  if key = "for".toList then { builder with «for» := some (Ip.ofText value) }
  else if key = "by".toList then { builder with «by» := some (Ip.ofText value) }
  else if key = "proto".toList then { builder with proto := some (Proto.ofText value) }
  else builder

def build (builder : ForwardedBuilder) : Forwarded :=
  { «for» := builder.«for».getD default
    «by» := builder.«by».getD default
    proto := builder.proto.getD default }

end ForwardedBuilder

def Forwarded.ofText (value : Str) : Except Panic Forwarded := do
  let split := (value.splitOn ';').map Whitespace.trim
  let builder ← split.foldlM
    (fun builder pair => do
      let pair ← unwrap (Text.splitOnce ['='] pair)
      .ok (builder.set pair))
    ({} : ForwardedBuilder)
  .ok builder.build

inductive ProxyInfoType
  | forwarded (proxies : List Forwarded)
  | xRealIp (ip : Ip)
  | xForwardedFor (ip : Ip) (proxies : List Ip)
  | xForwardedProto (proto : Proto)
  | xForwardedHost (host : Str)
  deriving DecidableEq

instance : Inhabited ProxyInfoType := ⟨.xRealIp default⟩

def ProxyInfoType.peer : ProxyInfoType → Ip
  | forwarded proxies => (proxies[0]?.map Forwarded.«for»).getD default
  | xRealIp ip => ip
  | xForwardedFor ip _ => ip
  | _ => default

structure SocketAddr where
  ip : IpAddr
  port : UInt16

structure Peer where
  socket : Option SocketAddr

def Peer.getIp (peer : Peer) : Option IpAddr := peer.socket.map SocketAddr.ip

structure ProxiedRequest (Body : Type) where
  headers : HeaderMap
  peer : Option Peer
  proxyInfo : Option ProxyInfoType
  body : Body

def headerText (headers : HeaderMap) (name : String) : Option Str :=
  (headers.get name).bind HeaderValue.toStr

namespace ProxyInfo

def info (headers : HeaderMap) (streamPeerInfo : Option Peer) :
    Except Panic (Option ProxyInfoType) :=
  match headerText headers "forwarded" with
  | some fw => do
      let proxies ← (fw.splitOn ',').mapM Forwarded.ofText
      .ok (some (.forwarded proxies))
  | none =>
      match headerText headers "x-forwarded-for" with
      | some fw =>
          let list := ((fw.splitOn ',').map Whitespace.trimStart).map Ip.ofText
          do
            -- `remove(0)`
            let ip ← unwrap list.head?
            .ok (some (.xForwardedFor ip list.tail))
      | none =>
          match (headerText headers "x-real-ip").map Ip.ofText with
          | some ip => .ok (some (.xRealIp ip))
          | none =>
              match streamPeerInfo.bind fun peer => peer.getIp.map Ip.ip with
              | some ip => .ok (some (.xRealIp ip))
              | none => .ok none

variable {Body Response : Type}

/-- What the next layer is called with. -/
def withInfo (req : ProxiedRequest Body) (info : ProxyInfoType) : ProxiedRequest Body :=
  { req with peer := none, proxyInfo := some info }

def call (inner : ProxiedRequest Body → Response) (req : ProxiedRequest Body) :
    Except Panic Response := do
  let info ← info req.headers req.peer
  .ok (inner (withInfo req (info.getD default)))

/-- Whatever the next layer is, it is called with the information. -/
def Records (req : ProxiedRequest Body) (info : ProxyInfoType) : Prop :=
  ∀ (Response : Type) (inner : ProxiedRequest Body → Response),
    call inner req = .ok (inner (withInfo req info))

def NeverPanics (req : ProxiedRequest Body) : Prop :=
  ∀ (Response : Type) (inner : ProxiedRequest Body → Response), Completes (call inner req)

end ProxyInfo

/-! ## Descriptions of proxies -/

section Descriptions

structure ForwardedPair extends Whitespace.Padded where
  key : Str
  value : Str
  key_clean : ∀ c ∈ [',', ';', '='], c ∉ key
  value_clean : ∀ c ∈ [',', ';'], c ∉ value
  text_eq : text = key ++ '=' :: value

namespace ForwardedPair

def last (key : Str) (pairs : List ForwardedPair) : Option Str :=
  (pairs.reverse.find? (·.key = key)).map value

end ForwardedPair

structure ForwardedElement where
  pairs : List ForwardedPair
  pairs_ne : pairs ≠ []

namespace ForwardedElement

def render (element : ForwardedElement) : Str :=
  [';'].intercalate (element.pairs.map (·.toPadded.render))

def forwarded (element : ForwardedElement) : Forwarded :=
  { «for» := ((ForwardedPair.last "for".toList element.pairs).map Ip.ofText).getD default
    «by» := ((ForwardedPair.last "by".toList element.pairs).map Ip.ofText).getD default
    proto := ((ForwardedPair.last "proto".toList element.pairs).map Proto.ofText).getD default }

def renderAll (elements : List ForwardedElement) : Str := [','].intercalate (elements.map render)

end ForwardedElement

/-- The header never makes the call panic, and whatever proxies it describes are recorded, so
that the peer is what the first of them says. -/
def ForwardedFaithful {Body : Type} (req : ProxiedRequest Body) (text : Str) : Prop :=
  ProxyInfo.NeverPanics req ∧
    ∀ first rest, ForwardedElement.renderAll (first :: rest) = text →
      ProxyInfo.Records req
          (.forwarded ((first :: rest).map ForwardedElement.forwarded)) ∧
        (ProxyInfoType.forwarded
          ((first :: rest).map ForwardedElement.forwarded)).peer = first.forwarded.«for»

def HasEquals (text : Str) : Prop :=
  ∀ element ∈ text.splitOn ',', ∀ pair ∈ element.splitOn ';', '=' ∈ pair

end Descriptions

/-! ## Elements -/

section Elements

theorem info_of_forwarded {headers : HeaderMap} {text : Str} (streamPeerInfo : Option Peer)
    (htext : headerText headers "forwarded" = some text) :
    ProxyInfo.info headers streamPeerInfo =
      (text.splitOn ',').mapM Forwarded.ofText >>= fun proxies =>
        .ok (some (.forwarded proxies)) := by
  rw [ProxyInfo.info, htext]

theorem Forwarded.ofText_eq (value : Str) :
    Forwarded.ofText value =
      ((value.splitOn ';').map Whitespace.trim).mapM
          (fun pair => unwrap (Text.splitOnce ['='] pair)) >>=
        fun pairs => .ok (pairs.foldl ForwardedBuilder.set {}).build := by
  rw [Forwarded.ofText, foldlM_bind_ok, bind_assoc]
  rfl

theorem completes_splitOnce_iff {pair : Str} :
    Completes (unwrap (Text.splitOnce ['='] (Whitespace.trim pair))) ↔ '=' ∈ pair := by
  rw [← Whitespace.mem_trim_iff (by decide), ← List.singleton_infix_iff, ← not_iff_not,
    ← Text.splitOnce_eq_none_iff]
  cases Text.splitOnce ['='] (Whitespace.trim pair) <;> simp

theorem completes_ofText_iff {value : Str} :
    Completes (Forwarded.ofText value) ↔ ∀ pair ∈ value.splitOn ';', '=' ∈ pair := by
  rw [Forwarded.ofText_eq, completes_bind_ok, completes_mapM, List.forall_mem_map]
  exact forall₂_congr fun pair _ => completes_splitOnce_iff

end Elements

/-! ## Faithful descriptions -/

section Faithful

namespace ForwardedPair

variable {sep : Char}

theorem not_mem_render {pair : ForwardedPair} (hkey : sep ∉ pair.key) (hvalue : sep ∉ pair.value)
    (hequals : sep ≠ '=') (hsep : Whitespace.isWhitespace sep = false) : sep ∉ pair.render := by
  have hblank {blank : Str} (h : Whitespace.IsBlank blank) : sep ∉ blank := by
    intro hmem
    rw [h sep hmem] at hsep
    cases hsep
  rw [Whitespace.Padded.render, pair.text_eq]
  simp only [List.mem_append, List.mem_cons, not_or]
  exact ⟨⟨hblank pair.front_blank, hkey, hequals, hvalue⟩, hblank pair.back_blank⟩

theorem semicolon_not_mem_render (pair : ForwardedPair) : ';' ∉ pair.render :=
  not_mem_render (pair.key_clean _ (by simp)) (pair.value_clean _ (by simp)) (by decide)
    (by decide)

theorem comma_not_mem_render (pair : ForwardedPair) : ',' ∉ pair.render :=
  not_mem_render (pair.key_clean _ (by simp)) (pair.value_clean _ (by simp)) (by decide)
    (by decide)

theorem splitOnce_text (pair : ForwardedPair) :
    Text.splitOnce ['='] pair.text = some (pair.key, pair.value) := by
  rw [pair.text_eq]
  exact Text.splitOnce_append_of_not_mem (pair.key_clean _ (by simp)) pair.value

theorem last_append (key : Str) (pairs : List ForwardedPair) (pair : ForwardedPair) :
    last key (pairs ++ [pair]) = if pair.key = key then some pair.value else last key pairs := by
  rw [last, List.reverse_append, List.reverse_singleton, List.singleton_append, List.find?_cons]
  by_cases hkey : pair.key = key
  · simp [hkey]
  · simp [hkey, last]

theorem foldl_set (pairs : List ForwardedPair) :
    (pairs.map fun pair => (pair.key, pair.value)).foldl ForwardedBuilder.set {} =
      { «for» := (last "for".toList pairs).map Ip.ofText
        «by» := (last "by".toList pairs).map Ip.ofText
        proto := (last "proto".toList pairs).map Proto.ofText } := by
  induction pairs using List.reverseRecOn with
  | nil => rfl
  | append_singleton pairs pair ih =>
      rw [List.map_append, List.foldl_append, ih, last_append, last_append, last_append]
      rw [List.map_singleton, List.foldl_cons, List.foldl_nil, ForwardedBuilder.set]
      dsimp only
      by_cases hfor : pair.key = "for".toList
      · simp [hfor]
      · by_cases hby : pair.key = "by".toList
        · simp [hby]
        · by_cases hproto : pair.key = "proto".toList
          · simp [hproto]
          · simp only [if_neg hfor, if_neg hby, if_neg hproto]

end ForwardedPair

namespace ForwardedElement

theorem comma_not_mem_render (element : ForwardedElement) : ',' ∉ element.render := by
  rw [render, Text.mem_intercalate]
  rintro (⟨part, hpart, hcomma⟩ | ⟨-, hcomma⟩)
  · obtain ⟨pair, -, rfl⟩ := List.mem_map.1 hpart
    exact pair.comma_not_mem_render hcomma
  · exact absurd hcomma (by decide)

/-- An element is read as the proxy it describes. -/
theorem ofText_render (element : ForwardedElement) :
    Forwarded.ofText element.render = .ok element.forwarded := by
  have hsplit : (element.render.splitOn ';').map Whitespace.trim =
      element.pairs.map (·.text) := by
    have hne : element.pairs.map ForwardedPair.toPadded ≠ [] := by simpa using element.pairs_ne
    have hpieces := Whitespace.map_trim_splitOn hne
      (List.forall_mem_map.2 fun pair _ => pair.semicolon_not_mem_render)
    rwa [List.map_map, List.map_map] at hpieces
  have hpairs : (element.pairs.map (·.text)).mapM
      (fun pair => unwrap (Text.splitOnce ['='] pair)) =
        .ok (element.pairs.map fun pair => (pair.key, pair.value)) := by
    apply mapM_ok
    rw [List.forall₂_map_left_iff, List.forall₂_map_right_iff, List.forall₂_same]
    intro pair _
    rw [pair.splitOnce_text, unwrap_some]
  rw [Forwarded.ofText_eq, hsplit, hpairs, ok_bind, ForwardedPair.foldl_set]
  rfl

theorem mapM_renderAll {elements : List ForwardedElement} (helements : elements ≠ []) :
    ((renderAll elements).splitOn ',').mapM Forwarded.ofText =
      .ok (elements.map forwarded) := by
  have hcomma : ∀ piece ∈ elements.map render, ',' ∉ piece :=
    List.forall_mem_map.2 fun element _ => element.comma_not_mem_render
  rw [renderAll, List.splitOn_intercalate _ hcomma (by simpa using helements)]
  apply mapM_ok
  rw [List.forall₂_map_left_iff, List.forall₂_map_right_iff, List.forall₂_same]
  exact fun element _ => element.ofText_render

end ForwardedElement

theorem records_of_info {Body : Type} {req : ProxiedRequest Body} {info : ProxyInfoType}
    (hinfo : ProxyInfo.info req.headers req.peer = .ok (some info)) :
    ProxyInfo.Records req info := by
  intro Response inner
  rw [ProxyInfo.call, hinfo, ok_bind, Option.getD_some]

theorem neverPanics_iff {Body : Type} {req : ProxiedRequest Body} :
    ProxyInfo.NeverPanics req ↔ Completes (ProxyInfo.info req.headers req.peer) := by
  constructor
  · intro h
    exact completes_bind_ok.1 (h Unit fun _ => ())
  · intro h Response inner
    exact completes_bind_ok.2 h

theorem completes_info_iff {headers : HeaderMap} {streamPeerInfo : Option Peer} {text : Str}
    (htext : headerText headers "forwarded" = some text) :
    Completes (ProxyInfo.info headers streamPeerInfo) ↔ HasEquals text := by
  rw [info_of_forwarded streamPeerInfo htext, completes_bind_ok, completes_mapM]
  exact forall₂_congr fun element _ => completes_ofText_iff

/-- The header is parsed as it should be exactly if every piece of it has an `=`. -/
theorem forwardedFaithful_iff {Body : Type} (req : ProxiedRequest Body) (text : Str)
    (htext : headerText req.headers "forwarded" = some text) :
    ForwardedFaithful req text ↔ HasEquals text := by
  rw [ForwardedFaithful, neverPanics_iff, completes_info_iff htext, and_iff_left_iff_imp]
  rintro - first rest rfl
  refine ⟨records_of_info ?_, rfl⟩
  rw [info_of_forwarded _ htext, ForwardedElement.mapM_renderAll (by simp)]
  rfl

def forwardedRequest (value : String) : ProxiedRequest Unit :=
  { headers := [("forwarded", .ofStr value.toList)], peer := none, proxyInfo := none, body := () }

theorem forwarded_two_proxies :
    ForwardedFaithful (forwardedRequest "for=1.1.1.1; proto=https, for=2.2.2.2")
      "for=1.1.1.1; proto=https, for=2.2.2.2".toList :=
  (forwardedFaithful_iff _ _ (by decide)).2 (by unfold HasEquals; decide)

/-- A client makes the call panic with a word. -/
theorem forwarded_word_panics :
    ProxyInfo.call (fun _ => ()) (forwardedRequest "for") = .error .unwrapNone ∧
      ¬ForwardedFaithful (forwardedRequest "for") "for".toList := by
  have hpanics : ProxyInfo.call (fun _ => ()) (forwardedRequest "for") = .error .unwrapNone := rfl
  refine ⟨hpanics, fun hfaithful => ?_⟩
  have hcompletes := hfaithful.1 Unit fun _ => ()
  rw [hpanics] at hcompletes
  exact not_completes_error _ hcompletes

end Faithful

/-! ## Lists of addresses -/

section Lists

def IsSpaces (blanks : Str) : Prop := ∀ c ∈ blanks, c = ' ' ∨ c = '\t'

structure Hop where
  before : Str
  after : Str
  addr : IpAddr
  before_blank : IsSpaces before
  after_blank : IsSpaces after

namespace Hop

def render (hop : Hop) : Str := hop.before ++ ',' :: hop.after ++ hop.addr.display

def renderAll (first : IpAddr) (hops : List Hop) : Str := first.display ++ hops.flatMap render

def pieces (front : Str) (addr : IpAddr) : List Hop → List Str
  | [] => [front ++ addr.display]
  | hop :: hops => (front ++ addr.display ++ hop.before) :: pieces hop.after hop.addr hops

end Hop

/-- The list comes back, address for address. -/
def ListsAddresses {Body : Type} (req : ProxiedRequest Body) (first : IpAddr) (hops : List Hop) :
    Prop :=
  ProxyInfo.Records req (.xForwardedFor (.ip first) (hops.map fun hop => .ip hop.addr))

variable {front blanks : Str} {addr : IpAddr} {hops : List Hop}

theorem IsSpaces.isBlank (h : IsSpaces blanks) : Whitespace.IsBlank blanks := by
  intro c hc
  rcases h c hc with rfl | rfl <;> decide

theorem IsSpaces.not_mem (h : IsSpaces blanks) : ',' ∉ blanks := by
  intro hc
  rcases h _ hc with heq | heq <;> exact absurd heq (by decide)

theorem IsSpaces.isVisibleText (h : IsSpaces blanks) : IsVisibleText blanks := by
  intro c hc
  rcases h c hc with rfl | rfl <;> decide

theorem not_whitespace_of_isAddrChar {c : Char} (hc : IsAddrChar c) :
    Whitespace.isWhitespace c = false := by
  have hrange := hc.toNat_range
  simp only [Whitespace.isWhitespace, List.mem_cons, List.not_mem_nil, or_false,
    decide_eq_false_iff_not]
  omega

theorem comma_not_mem_display (addr : IpAddr) : ',' ∉ addr.display := by
  intro hmem
  have hrange := (IpAddr.isAddrChar_of_mem_display hmem).toNat_range
  exact absurd hrange (by decide)

theorem isVisibleText_display (addr : IpAddr) : IsVisibleText addr.display := by
  intro c hc
  have hrange := (IpAddr.isAddrChar_of_mem_display hc).toNat_range
  unfold IsVisibleChar
  omega

theorem Ip.ofText_display (addr : IpAddr) : Ip.ofText addr.display = .ip addr := by
  rw [Ip.ofText, IpAddr.parse_display]

/-- With a blank behind it an address is not read. -/
theorem Ip.ofText_append_blanks (hblanks : IsSpaces blanks) (hne : blanks ≠ []) (text : Str)
    (other : IpAddr) : Ip.ofText (text ++ blanks) ≠ .ip other := by
  intro hread
  obtain ⟨c, hc⟩ := List.exists_mem_of_ne_nil blanks hne
  rw [Ip.ofText] at hread
  split at hread
  next hparse =>
    have haddr := IpAddr.isAddrChar_of_parse hparse c (List.mem_append_right _ hc)
    have hblank := hblanks.isBlank c hc
    rw [not_whitespace_of_isAddrChar haddr] at hblank
    cases hblank
  next => split_ifs at hread

theorem trimStart_front (hfront : IsSpaces front) (addr : IpAddr) (rest : Str) :
    Whitespace.trimStart (front ++ addr.display ++ rest) = addr.display ++ rest := by
  rw [List.append_assoc]
  apply Whitespace.trimStart_append hfront.isBlank
  intro c hc
  rw [List.head?_append_of_ne_nil _ addr.display_ne_nil] at hc
  exact not_whitespace_of_isAddrChar (IpAddr.isAddrChar_of_mem_display (List.mem_of_head? hc))

namespace Hop

theorem intercalate_pieces (front : Str) (addr : IpAddr) (hops : List Hop) :
    [','].intercalate (pieces front addr hops) = front ++ addr.display ++ hops.flatMap render := by
  induction hops generalizing front addr with
  | nil => rw [pieces, List.intercalate_singleton, List.flatMap_nil, List.append_nil]
  | cons hop hops ih =>
      have hne : pieces hop.after hop.addr hops ≠ [] := by cases hops <;> simp [pieces]
      rw [pieces, List.intercalate_cons_of_ne_nil hne, ih, List.flatMap_cons, render]
      simp

theorem comma_not_mem_pieces (hfront : IsSpaces front) (addr : IpAddr) (hops : List Hop) :
    ∀ piece ∈ pieces front addr hops, ',' ∉ piece := by
  have hdisplay {front : Str} (hfront : IsSpaces front) (addr : IpAddr) :
      ',' ∉ front ++ addr.display := by
    rw [List.mem_append, not_or]
    exact ⟨hfront.not_mem, comma_not_mem_display addr⟩
  induction hops generalizing front addr with
  | nil => exact List.forall_mem_singleton.2 (hdisplay hfront addr)
  | cons hop hops ih =>
      refine List.forall_mem_cons.2 ⟨?_, ih hop.after_blank hop.addr⟩
      rw [List.mem_append, not_or]
      exact ⟨hdisplay hfront addr, hop.before_blank.not_mem⟩

theorem isVisibleText_renderAll (first : IpAddr) (hops : List Hop) :
    IsVisibleText (renderAll first hops) := by
  intro c hc
  rw [renderAll, List.mem_append, List.mem_flatMap] at hc
  rcases hc with hc | ⟨hop, -, hc⟩
  · exact isVisibleText_display first c hc
  · rw [render, List.mem_append, List.mem_append, List.mem_cons] at hc
    rcases hc with (hc | rfl | hc) | hc
    · exact hop.before_blank.isVisibleText c hc
    · decide
    · exact hop.after_blank.isVisibleText c hc
    · exact isVisibleText_display hop.addr c hc

theorem ofText_pieces_iff (hfront : IsSpaces front) (addr : IpAddr) (hops : List Hop) :
    ((pieces front addr hops).map Whitespace.trimStart).map Ip.ofText =
        .ip addr :: hops.map (fun hop => .ip hop.addr) ↔
      ∀ hop ∈ hops, hop.before = [] := by
  induction hops generalizing front addr with
  | nil =>
      have htrim := trimStart_front hfront addr []
      rw [List.append_nil, List.append_nil] at htrim
      simp [pieces, htrim, Ip.ofText_display]
  | cons hop hops ih =>
      rw [pieces, List.map_cons, List.map_cons, List.map_cons, List.cons.injEq,
        ih hop.after_blank hop.addr, List.forall_mem_cons, trimStart_front hfront]
      refine and_congr_left fun _ => ?_
      constructor
      · intro hread
        by_contra hne
        exact Ip.ofText_append_blanks hop.before_blank hne _ _ hread
      · intro hnone
        rw [hnone, List.append_nil, Ip.ofText_display]

end Hop

theorem headerText_ofStr {headers : HeaderMap} {name : String} {text : Str}
    (hget : headers.get name = some (.ofStr text)) (hvisible : IsVisibleText text) :
    headerText headers name = some text := by
  rw [headerText, hget, Option.bind_some, HeaderValue.toStr_ofStr hvisible]

theorem info_of_xForwardedFor {headers : HeaderMap} (streamPeerInfo : Option Peer) {text : Str}
    (hforwarded : headers.get "forwarded" = none)
    (htext : headerText headers "x-forwarded-for" = some text) {ip : Ip} {proxies : List Ip}
    (hlist : ((text.splitOn ',').map Whitespace.trimStart).map Ip.ofText = ip :: proxies) :
    ProxyInfo.info headers streamPeerInfo = .ok (some (.xForwardedFor ip proxies)) := by
  have hnone : headerText headers "forwarded" = none := by
    rw [headerText, hforwarded, Option.bind_none]
  rw [ProxyInfo.info, hnone, htext]
  dsimp only
  rw [hlist]
  rfl

theorem records_iff {Body : Type} {req : ProxiedRequest Body} {info info' : ProxyInfoType}
    (hinfo : ProxyInfo.info req.headers req.peer = .ok (some info)) :
    ProxyInfo.Records req info' ↔ info = info' := by
  constructor
  · intro hrecords
    have hcall := hrecords _ fun request => request.proxyInfo
    rw [records_of_info hinfo] at hcall
    exact Option.some.inj (Except.ok.inj hcall)
  · rintro rfl
    exact records_of_info hinfo

/-- The list comes back exactly if no comma has a blank before it. -/
theorem listsAddresses_iff {Body : Type} (req : ProxiedRequest Body) (first : IpAddr)
    (hops : List Hop) (hforwarded : req.headers.get "forwarded" = none)
    (hlist : req.headers.get "x-forwarded-for" = some (.ofStr (Hop.renderAll first hops))) :
    ListsAddresses req first hops ↔ ∀ hop ∈ hops, hop.before = [] := by
  have hnone : IsSpaces [] := List.forall_mem_nil _
  have htext := headerText_ofStr hlist (Hop.isVisibleText_renderAll first hops)
  have hsplit : (Hop.renderAll first hops).splitOn ',' = Hop.pieces [] first hops := by
    have hne : Hop.pieces [] first hops ≠ [] := by cases hops <;> simp [Hop.pieces]
    rw [Hop.renderAll, ← List.nil_append first.display, ← Hop.intercalate_pieces,
      List.splitOn_intercalate _ (Hop.comma_not_mem_pieces hnone first hops) hne]
  obtain ⟨ip, proxies, hips⟩ := List.exists_cons_of_ne_nil
    (show ((Hop.pieces [] first hops).map Whitespace.trimStart).map Ip.ofText ≠ [] by
      cases hops <;> simp [Hop.pieces])
  rw [ListsAddresses, records_iff (info_of_xForwardedFor req.peer hforwarded htext
    (by rw [hsplit, hips])), ← Hop.ofText_pieces_iff hnone first hops, hips]
  simp

def oneOneOneOne : IpAddr := .v4 { a := 1, b := 1, c := 1, d := 1 }

def twoTwoTwoTwo : IpAddr := .v4 { a := 2, b := 2, c := 2, d := 2 }

theorem isSpaces_nil : IsSpaces [] := List.forall_mem_nil _

theorem isSpaces_space : IsSpaces [' '] := List.forall_mem_singleton.2 (.inl rfl)

def hopAfterSpace : Hop :=
  { before := []
    after := [' ']
    addr := twoTwoTwoTwo
    before_blank := isSpaces_nil
    after_blank := isSpaces_space }

def hopBeforeSpace : Hop :=
  { before := [' ']
    after := []
    addr := twoTwoTwoTwo
    before_blank := isSpaces_space
    after_blank := isSpaces_nil }

def listRequest (value : String) : ProxiedRequest Unit :=
  { headers := [("x-forwarded-for", .ofStr value.toList)]
    peer := none
    proxyInfo := none
    body := () }

theorem space_after_comma_lists :
    ListsAddresses (listRequest "1.1.1.1, 2.2.2.2") oneOneOneOne [hopAfterSpace] :=
  (listsAddresses_iff _ _ _ rfl rfl).2 (List.forall_mem_singleton.2 rfl)

/-- The client is lost when a blank is behind its address. -/
theorem space_before_comma_loses :
    ProxyInfo.call ProxiedRequest.proxyInfo (listRequest "1.1.1.1 ,2.2.2.2") =
        .ok (some (.xForwardedFor .notDefined [.ip twoTwoTwoTwo])) ∧
      Hop.renderAll oneOneOneOne [hopBeforeSpace] = "1.1.1.1 ,2.2.2.2".toList ∧
      ¬ListsAddresses (listRequest "1.1.1.1 ,2.2.2.2") oneOneOneOne [hopBeforeSpace] := by
  have hcall : ProxyInfo.call ProxiedRequest.proxyInfo (listRequest "1.1.1.1 ,2.2.2.2") =
      .ok (some (.xForwardedFor .notDefined [.ip twoTwoTwoTwo])) := rfl
  refine ⟨hcall, rfl, fun hlists => ?_⟩
  have hrecorded := hlists _ ProxiedRequest.proxyInfo
  rw [hcall] at hrecorded
  exact absurd hrecorded (by decide)

end Lists

end WsHyper.Utils
