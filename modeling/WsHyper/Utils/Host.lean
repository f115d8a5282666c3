import WsHyper.Lib.Regex
import WsHyper.Lib.IpAddr
import WsHyper.Lib.Text
import WsHyper.Utils.ProxyInfo

/-!
# The host of the application

`Host.fromUrl` reads the address under which the application is served: a scheme, an
address or a domain, perhaps a port, and a final slash.  The port that the expression
knows is a single digit, so an address with a longer port is no address for it but a
domain, and the brackets of an IPv6 address are handed to a parser that knows none.
-/

namespace WsHyper.Utils

open WsHyper.Lib WsHyper.Lib.Digits

def Proto.display : Proto → Str
  | .http => "http".toList
  | .https => "https".toList
  | .unknown => "unknown".toList
  | .ws => "ws".toList
  | .ftp => "ftp".toList
  | .wss => "wss".toList

inductive HostType
  | domain (proto : Proto) (domain : Str)
  | ipv4 (proto : Proto) (ip : Ipv4Addr)
  | ipv6 (proto : Proto) (ip : Ipv6Addr)
  deriving DecidableEq

structure Host where
  host : HostType
  deriving DecidableEq

namespace Host

def proto (host : Host) : Proto :=
  match host.host with
  | .domain proto _ => proto
  | .ipv4 proto _ => proto
  | .ipv6 proto _ => proto

def domain (host : Host) : Str :=
  match host.host with
  | .domain _ domain => domain
  | .ipv4 _ ip => IpAddr.display (.v4 ip)
  | .ipv6 _ ip => IpAddr.display (.v6 ip)

/-- `Host::host`. -/
def url (host : Host) : Str :=
  host.proto.display ++ "://".toList ++ host.domain ++ "/".toList

def newIp (proto : Proto) : IpAddr → Host
  | .v4 ip => { host := .ipv4 proto ip }
  | .v6 ip => { host := .ipv6 proto ip }

def newDomain (proto : Proto) (domain : Str) : Host := { host := .domain proto domain }

end Host

/-- The decimal numbers of Unicode, for `\d`.  The table of them is not the program's; of
the characters of ASCII it holds the ten digits. -/
structure DecimalNumbers where
  mem : Char → Bool
  ascii : ∀ c : Char, c.toNat < 128 → mem c = isDigit 10 c

/-- `str::parse::<usize>`. -/
def parseUsize (text : Str) : Option Nat :=
  let digits := Text.stripPrefix ['+'] text
  if digits = [] ∨ digits.all (isDigit 10) = false then none
  else if value 10 digits < 18446744073709551616 then some (value 10 digits)
  else none

/-- The numbers of ASCII alone. -/
def DecimalNumbers.ofAscii : DecimalNumbers := { mem := isDigit 10, ascii := fun _ _ => rfl }

namespace Host

section Expression

open Regex

variable (num : DecimalNumbers)

/-- `\d{1,3}` -/
def octetRegex : Regex := seq (one num.mem) (upTo 2 (one num.mem))

/-- `\d{1,3}\.\d{1,3}\.\d{1,3}\.\d{1,3}` -/
def ipv4Regex : Regex :=
  seq (octetRegex num) (seq (lit ['.']) (seq (octetRegex num) (seq (lit ['.'])
    (seq (octetRegex num) (seq (lit ['.']) (octetRegex num))))))

/-- `[0-9:]` -/
def isIpv6Char (c : Char) : Bool := isDigit 10 c || c == ':'

/-- `\[[0-9:]*\]` -/
def ipv6Regex : Regex := seq (lit ['[']) (seq (star (one isIpv6Char)) (lit [']']))

/-- `[^-].*` -/
def domainRegex : Regex := seq (one (· != '-')) (star (one (· != '\n')))

/-- `(?P<port>:\d)?/$` -/
def afterRegex : Regex :=
  seq (opt (group "port" (seq (lit [':']) (one num.mem)))) (seq (lit ['/']) atEnd)

/-- What stands behind the scheme. -/
def authorityRegex : Regex :=
  seq (alt (group "ip" (alt (ipv4Regex num) ipv6Regex)) (group "domain" domainRegex))
    (afterRegex num)

/-- The whole expression; `^` is the start of the search. -/
def hostRegex : Regex :=
  seq (group "proto" (seq (lit "http".toList) (opt (lit ['s']))))
    (seq (lit "://".toList) (authorityRegex num))

end Expression

/-- The group `proto` is in every match.  A port counts only if it is a number out of range. -/
def fromUrl (num : DecimalNumbers) (url : Str) : Except Unit Host :=
  match (hostRegex num).captures url with
  | some cap =>
      let proto := Proto.ofText ((cap.name "proto").getD [])
      match (cap.name "ip").bind IpAddr.parse with
      | some ip =>
          if ((cap.name "port").bind parseUsize).any (fun x => !(1 ≤ x && x < 65535)) then
            .error ()
          else .ok (newIp proto ip)
      | none =>
          match cap.name "domain" with
          | some domain => .ok (newDomain proto domain)
          | none => .error ()
  | none => .error ()

/-! ## What the parts of the expression take -/

section Ways

open Regex

variable (num : DecimalNumbers)

def IsOctetText (text : Str) : Prop :=
  text ≠ [] ∧ text.length ≤ 3 ∧ ∀ c ∈ text, num.mem c = true

def IsIpv4Text (text : Str) : Prop :=
  ∃ a b c d, text = a ++ '.' :: b ++ '.' :: c ++ '.' :: d ∧
    ∀ octet ∈ [a, b, c, d], IsOctetText num octet

def IsIpv6Text (text : Str) : Prop :=
  ∃ inner : Str, text = '[' :: inner ++ [']'] ∧ ∀ c ∈ inner, isIpv6Char c = true

def IsDomainText (text : Str) : Prop :=
  ∃ c cs, text = c :: cs ∧ c ≠ '-' ∧ '\n' ∉ cs

/-- What follows the host: perhaps a digit as the port, and the final slash. -/
def IsAfter (text : Str) (caps : Captures) : Prop :=
  text = ['/'] ∧ caps = [] ∨
    ∃ d, num.mem d = true ∧ text = [':', d, '/'] ∧ caps = [("port", [':', d])]

theorem takes_octetRegex : Takes (octetRegex num) (IsOctetText num) := by
  refine ((Takes.one num.mem).seq (Takes.upTo_one 2 num.mem)).congr fun text => ?_
  constructor
  · rintro ⟨_, right, rfl, ⟨c, rfl, hc⟩, hlength, hright⟩
    exact ⟨List.cons_ne_nil c right, Nat.succ_le_succ hlength, List.forall_mem_cons.2 ⟨hc, hright⟩⟩
  · rintro ⟨hne, hlength, hall⟩
    cases text with
    | nil => exact absurd rfl hne
    | cons c text =>
        rw [List.forall_mem_cons] at hall
        exact ⟨[c], text, rfl, ⟨c, rfl, hall.1⟩, Nat.le_of_succ_le_succ hlength, hall.2⟩

theorem takes_ipv4Regex : Takes (ipv4Regex num) (IsIpv4Text num) := by
  have hoctet := takes_octetRegex num
  have hdot := Takes.lit ['.']
  refine (hoctet.seq (hdot.seq (hoctet.seq (hdot.seq (hoctet.seq (hdot.seq hoctet)))))).congr
    fun text => ?_
  constructor
  · rintro ⟨a, _, rfl, ha, _, _, rfl, rfl, b, _, rfl, hb, _, _, rfl, rfl, c, _, rfl, hc,
      _, d, rfl, rfl, hd⟩
    exact ⟨a, b, c, d, by simp, by simp [ha, hb, hc, hd]⟩
  · rintro ⟨a, b, c, d, rfl, hall⟩
    simp only [List.forall_mem_cons] at hall
    obtain ⟨ha, hb, hc, hd, -⟩ := hall
    exact ⟨a, _, by simp, ha, ['.'], _, rfl, rfl, b, _, rfl, hb, ['.'], _, rfl, rfl, c, _, rfl,
      hc, ['.'], d, rfl, rfl, hd⟩

theorem takes_ipv6Regex : Takes ipv6Regex IsIpv6Text := by
  refine ((Takes.lit ['[']).seq ((Takes.star_one isIpv6Char).seq (Takes.lit [']']))).congr
    fun text => ?_
  constructor
  · rintro ⟨_, _, rfl, rfl, inner, _, rfl, hinner, rfl⟩
    exact ⟨inner, rfl, hinner⟩
  · rintro ⟨inner, rfl, hinner⟩
    exact ⟨['['], inner ++ [']'], rfl, rfl, inner, [']'], rfl, hinner, rfl⟩

theorem takes_domainRegex : Takes domainRegex IsDomainText := by
  refine ((Takes.one _).seq (Takes.star_one _)).congr fun text => ?_
  simp only [bne_iff_ne]
  constructor
  · rintro ⟨_, cs, rfl, ⟨c, rfl, hc⟩, hcs⟩
    exact ⟨c, cs, rfl, hc, fun hmem => hcs _ hmem rfl⟩
  · rintro ⟨c, cs, rfl, hc, hcs⟩
    refine ⟨[c], cs, rfl, ⟨c, rfl, hc⟩, fun d hd => ?_⟩
    rintro rfl
    exact hcs hd

theorem matches_afterRegex_iff {taken rest : Str} {caps : Captures} :
    (afterRegex num).Matches taken caps rest ↔ rest = [] ∧ IsAfter num taken caps := by
  have hport := (Takes.lit [':']).seq (Takes.one num.mem)
  constructor
  · rintro ⟨left, right, capsLeft, capsRight, rfl, rfl, hleft, slash, theEnd, capsSlash, capsEnd,
      rfl, rfl, hslash, rfl, rfl, rfl⟩
    obtain ⟨rfl, rfl⟩ := (Takes.lit ['/'] _ _ _).1 hslash
    refine ⟨rfl, ?_⟩
    rcases hleft with hleft | ⟨rfl, rfl⟩
    · obtain ⟨rfl, _, _, rfl, rfl, d, rfl, hd⟩ := hport.matches_group_iff.1 hleft
      exact .inr ⟨d, hd, rfl, rfl⟩
    · exact .inl ⟨rfl, rfl⟩
  · rintro ⟨rfl, hafter⟩
    have hslash : (lit ['/']).Matches ['/'] [] ([] ++ []) := (Takes.lit ['/'] _ _ _).2 ⟨rfl, rfl⟩
    have hend : (seq (lit ['/']) atEnd).Matches ['/'] [] [] :=
      ⟨['/'], [], [], [], rfl, rfl, hslash, rfl, rfl, rfl⟩
    rcases hafter with ⟨rfl, rfl⟩ | ⟨d, hd, rfl, rfl⟩
    · exact ⟨[], ['/'], [], [], rfl, rfl, .inr ⟨rfl, rfl⟩, hend⟩
    · refine ⟨[':', d], ['/'], [("port", [':', d])], [], rfl, rfl, .inl ?_, hend⟩
      exact hport.matches_group_iff.2 ⟨rfl, [':'], [d], rfl, rfl, d, rfl, hd⟩

theorem mem_results_host_iff {r : Regex} {P : Str → Prop} (hr : Takes r P) {name : String}
    {text rest : Str} {caps : Captures} :
    (caps, rest) ∈ (seq (group name r) (afterRegex num)).results text ↔
      rest = [] ∧ ∃ host after capsAfter, text = host ++ after ∧ P host ∧
        IsAfter num after capsAfter ∧ caps = capsAfter ++ [(name, host)] := by
  rw [mem_results_iff]
  constructor
  · rintro ⟨taken, rfl, host, after, capsHost, capsAfter, rfl, rfl, hhost, hbehind⟩
    obtain ⟨rfl, hP⟩ := hr.matches_group_iff.1 hhost
    obtain ⟨rfl, hafter⟩ := (matches_afterRegex_iff num).1 hbehind
    exact ⟨rfl, host, after, capsAfter, by simp, hP, hafter, rfl⟩
  · rintro ⟨rfl, host, after, capsAfter, rfl, hP, hafter, rfl⟩
    exact ⟨host ++ after, by simp, host, after, _, capsAfter, rfl, rfl,
      hr.matches_group_iff.2 ⟨rfl, hP⟩, (matches_afterRegex_iff num).2 ⟨rfl, hafter⟩⟩

/-! ## What is captured -/

inductive Scheme
  | http
  | https
  deriving DecidableEq

def Scheme.proto : Scheme → Proto
  | http => .http
  | https => .https

def Scheme.text (scheme : Scheme) : Str := scheme.proto.display

@[simp] theorem ofText_text (scheme : Scheme) : Proto.ofText scheme.text = scheme.proto := by
  cases scheme <;> decide

def schemeRegex : Regex := seq (lit "http".toList) (opt (lit ['s']))

theorem results_http (text : Str) :
    (group "proto" schemeRegex).results ("http".toList ++ "://".toList ++ text) =
      [([("proto", "http".toList)], "://".toList ++ text)] := by
  simp [schemeRegex, results, lit, opt, andThen]

/-- The `s` is taken; without it the text would have to go on at the `s`. -/
theorem results_https (text : Str) :
    (group "proto" schemeRegex).results ("https".toList ++ "://".toList ++ text) =
      [([("proto", "https".toList)], "://".toList ++ text),
        ([("proto", "http".toList)], 's' :: "://".toList ++ text)] := by
  simp [schemeRegex, results, lit, opt, andThen]

theorem results_separator (r : Regex) (caps : Captures) (text : Str) :
    andThen [(caps, "://".toList ++ text)] (seq (lit "://".toList) r).results =
      (r.results text).map fun way => (way.1 ++ caps, way.2) := by
  rw [andThen_cons, andThen_nil, List.append_nil, results, results_lit_append, andThen_cons,
    andThen_nil, List.append_nil, List.map_map]
  simp [Function.comp_def]

theorem captures_hostRegex (scheme : Scheme) (text : Str) :
    (hostRegex num).captures (scheme.text ++ "://".toList ++ text) =
      ((authorityRegex num).captures text).map (· ++ [("proto", scheme.text)]) := by
  have hresults : (hostRegex num).results (scheme.text ++ "://".toList ++ text) =
      ((authorityRegex num).results text).map fun way =>
        (way.1 ++ [("proto", scheme.text)], way.2) := by
    rw [hostRegex, ← schemeRegex, results]
    cases scheme with
    | http => exact (congrArg (andThen · _) (results_http text)).trans (results_separator _ _ _)
    | https =>
        have hnone : (lit "://".toList).results ('s' :: "://".toList ++ text) = [] :=
          results_lit_eq_nil (by simp)
        refine (congrArg (andThen · _) (results_https text)).trans ?_
        rw [← List.singleton_append, andThen_append, results_separator, andThen_cons, andThen_nil,
          results, hnone, andThen_nil, List.map_nil, List.append_nil, List.append_nil]
        rfl
  rw [captures, hresults, List.head?_map, captures, Option.map_map, Option.map_map]
  rfl

theorem results_afterRegex_nil : (afterRegex num).results [] = [] := by
  simp [afterRegex, results, lit, opt, andThen]

theorem results_afterRegex_slash : (afterRegex num).results ['/'] = [([], [])] := by
  simp [afterRegex, results, lit, opt, andThen]

/-- A domain takes everything up to the final slash, also what looks like a port. -/
theorem captures_domain {text : Str} (htext : IsDomainText text) :
    (seq (group "domain" domainRegex) (afterRegex num)).captures (text ++ ['/']) =
      some [("domain", text)] := by
  obtain ⟨c, cs, rfl, hc, hcs⟩ := htext
  have hclass : ∀ d ∈ cs, (d != '\n') = true := by
    intro d hd
    rw [bne_iff_ne]
    rintro rfl
    exact hcs hd
  -- the longest way of the loop takes the slash too, the next one leaves it
  obtain ⟨others, hothers⟩ := results_star_one_append hclass ['/']
  have hslash : (star (one (· != '\n'))).results ['/'] = [([], []), ([], ['/'])] := by decide
  have hdomain : ∃ others, (group "domain" domainRegex).results (c :: cs ++ ['/']) =
      ([("domain", c :: cs ++ ['/'])], []) :: ([("domain", c :: cs)], ['/']) :: others := by
    rw [results, domainRegex, results, List.cons_append, results, if_pos (by simpa using hc),
      andThen_cons, andThen_nil, hothers, hslash]
    have hwhole : (c :: (cs ++ ['/'])).take ((c :: (cs ++ ['/'])).length - 0) =
        c :: (cs ++ ['/']) := by simp
    have hfront : (c :: (cs ++ ['/'])).take ((c :: (cs ++ ['/'])).length - 1) = c :: cs := by simp
    simp only [List.append_nil, List.cons_append, List.nil_append, List.map_cons,
      List.length_singleton, List.length_nil, hwhole, hfront]
    exact ⟨_, rfl⟩
  obtain ⟨others, hdomain⟩ := hdomain
  rw [captures, results, hdomain, andThen_cons, results_afterRegex_nil, List.map_nil,
    List.nil_append, andThen_cons, results_afterRegex_slash]
  rfl

theorem exists_captures_ip {text host after : Str} {capsAfter : Captures}
    (htext : text = host ++ after) (hhost : IsIpv4Text num host ∨ IsIpv6Text host)
    (hafter : IsAfter num after capsAfter) :
    ∃ host after capsAfter, text = host ++ after ∧ (IsIpv4Text num host ∨ IsIpv6Text host) ∧
      IsAfter num after capsAfter ∧
        (authorityRegex num).captures text = some (capsAfter ++ [("ip", host)]) := by
  have haddress := (takes_ipv4Regex num).alt takes_ipv6Regex
  have hmem : (capsAfter ++ [("ip", host)], []) ∈
      (seq (group "ip" (alt (ipv4Regex num) ipv6Regex)) (afterRegex num)).results text :=
    (mem_results_host_iff num haddress).2
      ⟨rfl, host, after, capsAfter, htext, hhost, hafter, rfl⟩
  obtain ⟨⟨caps, rest⟩, hway, hcaptures⟩ :=
    exists_captures_of_left (results_seq_alt _ _ _ text) (List.ne_nil_of_mem hmem)
  obtain ⟨-, host', after', capsAfter', htext', hhost', hafter', rfl⟩ :=
    (mem_results_host_iff num haddress).1 hway
  exact ⟨host', after', capsAfter', htext', hhost', hafter', hcaptures⟩

theorem captures_authorityRegex_of_no_ip {text : Str}
    (hnone : ¬∃ host after caps, text = host ++ after ∧
      (IsIpv4Text num host ∨ IsIpv6Text host) ∧ IsAfter num after caps) :
    (authorityRegex num).captures text =
      (seq (group "domain" domainRegex) (afterRegex num)).captures text := by
  have hnil : (seq (group "ip" (alt (ipv4Regex num) ipv6Regex)) (afterRegex num)).results text =
      [] := by
    rw [List.eq_nil_iff_forall_not_mem]
    rintro ⟨caps, rest⟩ hmem
    obtain ⟨-, host, after, capsAfter, htext, hhost, hafter, -⟩ :=
      (mem_results_host_iff num ((takes_ipv4Regex num).alt takes_ipv6Regex)).1 hmem
    exact hnone ⟨host, after, capsAfter, htext, hhost, hafter⟩
  rw [captures, authorityRegex, results_seq_alt, hnil, List.nil_append]
  rfl

/-! ## What `fromUrl` makes of it -/

theorem parseUsize_port (d : Char) : parseUsize [':', d] = none := by
  have hstrip : Text.stripPrefix ['+'] [':', d] = [':', d] := by simp [Text.stripPrefix]
  have hcolon : isDigit 10 ':' = false := by decide
  rw [parseUsize, hstrip]
  simp [hcolon]

variable {num}

/-- The port is never out of range, since it is never read as a number. -/
theorem fromUrl_of_ip {text host after : Str} {capsAfter : Captures} (scheme : Scheme)
    (hafter : IsAfter num after capsAfter)
    (hcaptures : (authorityRegex num).captures text = some (capsAfter ++ [("ip", host)])) :
    fromUrl num (scheme.text ++ "://".toList ++ text) =
      ((IpAddr.parse host).map (newIp scheme.proto)).elim (.error ()) .ok := by
  rw [fromUrl, captures_hostRegex, hcaptures]
  rcases hafter with ⟨-, rfl⟩ | ⟨d, -, -, rfl⟩
  · cases hparse : IpAddr.parse host <;> simp [hparse]
  · cases hparse : IpAddr.parse host <;> simp [hparse, parseUsize_port]

theorem fromUrl_of_domain {text host after : Str} {capsAfter : Captures} (scheme : Scheme)
    (hafter : IsAfter num after capsAfter)
    (hcaptures : (authorityRegex num).captures text = some (capsAfter ++ [("domain", host)])) :
    fromUrl num (scheme.text ++ "://".toList ++ text) =
      .ok (newDomain scheme.proto host) := by
  rw [fromUrl, captures_hostRegex, hcaptures]
  rcases hafter with ⟨-, rfl⟩ | ⟨d, -, -, rfl⟩ <;> simp

end Ways

/-! ## Addresses -/

section Addresses

variable {num : DecimalNumbers}

theorem mem_of_isDigit {c : Char} (hc : isDigit 10 c = true) : num.mem c = true := by
  have hrange := toNat_of_isDigit hc
  rw [num.ascii c (by omega), hc]

theorem mem_eq_false {c : Char} (hc : c ∈ [':', '/', '[']) : num.mem c = false := by
  have hascii : ∀ c ∈ [':', '/', '['], c.toNat < 128 ∧ isDigit 10 c = false := by simp; decide
  rw [num.ascii c (hascii c hc).1, (hascii c hc).2]

theorem mem_of_isIpv4Text {text : Str} (htext : IsIpv4Text num text) :
    ∀ c ∈ text, num.mem c = true ∨ c = '.' := by
  obtain ⟨a, b, c, d, rfl, hall⟩ := htext
  simp only [List.forall_mem_cons] at hall
  obtain ⟨⟨-, -, ha⟩, ⟨-, -, hb⟩, ⟨-, -, hc⟩, ⟨-, -, hd⟩, -⟩ := hall
  intro e he
  simp only [List.append_assoc, List.cons_append, List.mem_append, List.mem_cons] at he
  rcases he with he | rfl | he | rfl | he | rfl | he
  · exact .inl (ha e he)
  · exact .inr rfl
  · exact .inl (hb e he)
  · exact .inr rfl
  · exact .inl (hc e he)
  · exact .inr rfl
  · exact .inl (hd e he)

theorem not_mem_of_isIpv4Text {text : Str} (htext : IsIpv4Text num text) {c : Char}
    (hc : c ∈ [':', '/', '[']) : c ∉ text := by
  intro hmem
  have hdot : '.' ∉ [':', '/', '['] := by simp
  rcases mem_of_isIpv4Text htext c hmem with hnum | rfl
  · rw [mem_eq_false hc] at hnum
    cases hnum
  · exact hdot hc

theorem ne_nil_of_isIpv4Text {text : Str} (htext : IsIpv4Text num text) : text ≠ [] := by
  obtain ⟨a, b, c, d, rfl, -⟩ := htext
  simp

theorem isOctetText_decimal (octet : UInt8) : IsOctetText num (decimal octet) := by
  have hlt : octet.toNat < 256 := octet.toNat_lt
  refine ⟨Nat.toDigits_ne_nil, ?_, fun c hc => ?_⟩
  · exact (Nat.length_toDigits_le_iff (by decide) (by decide)).2 (by omega)
  · exact mem_of_isDigit (isDigit_of_mem_toDigits (by decide) (by decide) hc)

theorem isIpv4Text_display (addr : Ipv4Addr) : IsIpv4Text num addr.display := by
  refine ⟨decimal addr.a, decimal addr.b, decimal addr.c, decimal addr.d, ?_, ?_⟩
  · simp [Ipv4Addr.display]
  · simp [isOctetText_decimal]

theorem exists_cons_of_isAfter {after : Str} {caps : Captures} (hafter : IsAfter num after caps) :
    ∃ c rest, after = c :: rest ∧ (c = ':' ∨ c = '/') := by
  rcases hafter with ⟨rfl, -⟩ | ⟨d, -, rfl, -⟩
  · exact ⟨'/', [], rfl, .inr rfl⟩
  · exact ⟨':', [d, '/'], rfl, .inl rfl⟩

def hostText (text : Str) : IpAddr → Str
  | .v4 _ => text
  | .v6 _ => '[' :: text ++ [']']

def portText : Option Nat → Str
  | none => []
  | some port => ':' :: Nat.toDigits 10 port

theorem exists_cons_portText (port : Option Nat) :
    ∃ c rest, portText port ++ ['/'] = c :: rest ∧ (c = ':' ∨ c = '/') := by
  cases port with
  | none => exact ⟨'/', [], rfl, .inr rfl⟩
  | some port => exact ⟨':', Nat.toDigits 10 port ++ ['/'], rfl, .inl rfl⟩

variable {text host after : Str} {ip : IpAddr} {caps : Captures}

theorem isAddrChar_ne {c : Char} (hc : IsAddrChar c) :
    c ≠ '/' ∧ c ≠ '[' ∧ c ≠ ']' ∧ c ≠ '-' ∧ c ≠ '\n' := by
  refine ⟨?_, ?_, ?_, ?_, ?_⟩ <;> (rintro rfl; exact absurd hc (by decide))

theorem hostText_eq_of_append (hparse : IpAddr.parse text = some ip) {port : Option Nat}
    (hhost : IsIpv4Text num host ∨ IsIpv6Text host) (hafter : IsAfter num after caps)
    (heq : hostText text ip ++ (portText port ++ ['/']) = host ++ after) :
    host = hostText text ip ∧ after = portText port ++ ['/'] := by
  have hchars := IpAddr.isAddrChar_of_parse hparse
  cases ip with
  | v4 addr =>
      rw [hostText] at heq ⊢
      obtain rfl := IpAddr.parse_eq_v4_iff.1 hparse
      rcases hhost with hipv4 | ⟨inner, rfl, -⟩
      · have hstop : ∀ c ∈ host, ¬(c = ':' ∨ c = '/') := by
          rintro c hc (rfl | rfl)
          · exact not_mem_of_isIpv4Text hipv4 (by simp) hc
          · exact not_mem_of_isIpv4Text hipv4 (by simp) hc
        have hstop' : ∀ c ∈ addr.display, ¬(c = ':' ∨ c = '/') := by
          intro c hc hstop
          rcases Ipv4Addr.mem_display hc with hdigit | rfl
          · rcases hstop with rfl | rfl <;> exact absurd hdigit (by decide)
          · revert hstop
            decide
        obtain ⟨hhost, hrest⟩ := Text.append_inj_of_stop hstop' hstop (exists_cons_portText port)
          (exists_cons_of_isAfter hafter) heq
        exact ⟨hhost.symm, hrest.symm⟩
      · -- the text of an IPv4 address has no brackets
        have hne : addr.display ≠ [] := IpAddr.display_ne_nil (.v4 addr)
        obtain ⟨c, cs, hdisplay⟩ := List.exists_cons_of_ne_nil hne
        rw [hdisplay] at heq hchars
        obtain ⟨rfl, -⟩ := List.cons.inj heq
        exact absurd rfl (isAddrChar_ne (hchars '[' List.mem_cons_self)).2.1
  | v6 addr =>
      rw [hostText] at heq ⊢
      rcases hhost with hipv4 | ⟨inner, rfl, hinner⟩
      · obtain ⟨c, cs, rfl⟩ := List.exists_cons_of_ne_nil (ne_nil_of_isIpv4Text hipv4)
        obtain ⟨rfl, -⟩ := List.cons.inj heq
        exact absurd List.mem_cons_self (not_mem_of_isIpv4Text hipv4 (by simp))
      · have hstop : ∀ c ∈ inner, ¬c = ']' := by
          rintro c hc rfl
          exact absurd (hinner ']' hc) (by decide)
        have hstop' : ∀ c ∈ text, ¬c = ']' := fun c hc => (isAddrChar_ne (hchars c hc)).2.2.1
        have hrest : text ++ (']' :: (portText port ++ ['/'])) = inner ++ (']' :: after) := by
          simpa using heq
        obtain ⟨rfl, htail⟩ := Text.append_inj_of_stop hstop' hstop ⟨']', _, rfl, rfl⟩
          ⟨']', _, rfl, rfl⟩ hrest
        exact ⟨rfl, (List.cons.inj htail).2.symm⟩

theorem isAfter_portText_iff (port : Option Nat) :
    (∃ caps, IsAfter num (portText port ++ ['/']) caps) ↔ ∀ p ∈ port, p < 10 := by
  cases port with
  | none => exact ⟨fun _ p hp => absurd hp (by simp), fun _ => ⟨[], .inl ⟨rfl, rfl⟩⟩⟩
  | some port =>
      have hlength : (Nat.toDigits 10 port).length ≤ 1 ↔ port < 10 ^ 1 :=
        Nat.length_toDigits_le_iff (by decide) (by decide)
      simp only [Option.mem_def, Option.some.injEq, forall_eq']
      constructor
      · rintro ⟨caps, ⟨heq, -⟩ | ⟨d, -, heq, -⟩⟩
        · cases (List.cons.inj heq).1
        · have hdigits := congrArg List.length heq
          simp only [portText, List.cons_append, List.length_cons, List.length_append,
            List.length_nil] at hdigits
          have hlt := hlength.1 (by omega)
          omega
      · intro hlt
        have hone : Nat.toDigits 10 port = [Nat.digitChar port] := by
          rw [Nat.toDigits_eq_if (by decide), if_pos hlt]
        refine ⟨_, .inr ⟨Nat.digitChar port, mem_of_isDigit ?_, ?_, rfl⟩⟩
        · exact isDigit_of_mem_toDigits (n := port) (by decide) (by decide)
            (by rw [hone]; exact List.mem_singleton_self _)
        · rw [portText, hone]
          rfl

/-- An address with brackets is of digits and colons, if the expression knows it. -/
theorem isIpv6Text_iff : IsIpv6Text ('[' :: text ++ [']']) ↔ ∀ c ∈ text, isIpv6Char c = true := by
  constructor
  · rintro ⟨inner, heq, hinner⟩
    rw [List.append_cancel_right_eq] at heq
    rwa [(List.cons.inj heq).2]
  · exact fun htext => ⟨text, rfl, htext⟩

def IsKnown (text : Str) (ip : IpAddr) (port : Option Nat) : Prop :=
  (∀ addr, ip = .v6 addr → ∀ c ∈ text, isIpv6Char c = true) ∧ ∀ p ∈ port, p < 10

theorem isKnown_iff (hparse : IpAddr.parse text = some ip) (port : Option Nat) :
    IsKnown text ip port ↔
      ∃ host after caps, hostText text ip ++ (portText port ++ ['/']) = host ++ after ∧
        (IsIpv4Text num host ∨ IsIpv6Text host) ∧ IsAfter num after caps := by
  constructor
  · rintro ⟨htext, hport⟩
    obtain ⟨caps, hafter⟩ := (isAfter_portText_iff port).2 hport
    refine ⟨hostText text ip, portText port ++ ['/'], caps, rfl, ?_, hafter⟩
    cases ip with
    | v4 addr =>
        rw [hostText, IpAddr.parse_eq_v4_iff.1 hparse]
        exact .inl (isIpv4Text_display addr)
    | v6 addr => exact .inr (isIpv6Text_iff.2 (htext addr rfl))
  · rintro ⟨host, after, caps, heq, hhost, hafter⟩
    obtain ⟨rfl, rfl⟩ := hostText_eq_of_append hparse hhost hafter heq
    refine ⟨?_, (isAfter_portText_iff port).1 ⟨caps, hafter⟩⟩
    rintro addr rfl
    rcases hhost with hipv4 | hipv6
    · exact absurd List.mem_cons_self (not_mem_of_isIpv4Text hipv4 (by simp))
    · exact isIpv6Text_iff.1 hipv6

/-- `scheme://address:port/` -/
def addressUrl (scheme : Scheme) (text : Str) (ip : IpAddr) (port : Option Nat) : Str :=
  scheme.text ++ "://".toList ++ (hostText text ip ++ (portText port ++ ['/']))

theorem fromUrl_addressUrl_of_isKnown (scheme : Scheme) (hparse : IpAddr.parse text = some ip)
    {port : Option Nat} (hknown : IsKnown text ip port) :
    fromUrl num (addressUrl scheme text ip port) =
      ((IpAddr.parse (hostText text ip)).map (newIp scheme.proto)).elim (.error ()) .ok := by
  obtain ⟨host, after, caps, heq, hhost, hafter⟩ := (isKnown_iff hparse port).1 hknown
  obtain ⟨host, after, caps, heq, hhost, hafter, hcaptures⟩ :=
    exists_captures_ip num heq hhost hafter
  obtain ⟨rfl, -⟩ := hostText_eq_of_append hparse hhost hafter heq
  exact fromUrl_of_ip scheme hafter hcaptures

theorem parse_hostText (hparse : IpAddr.parse text = some ip) :
    IpAddr.parse (hostText text ip) =
      match ip with
      | .v4 _ => some ip
      | .v6 _ => none := by
  cases ip with
  | v4 addr => exact hparse
  | v6 addr =>
      rw [Option.eq_none_iff_forall_ne_some]
      intro ip' hparse'
      exact (isAddrChar_ne (IpAddr.isAddrChar_of_parse hparse' '[' List.mem_cons_self)).2.1 rfl

/-- Any other address is a domain for it, with its port. -/
theorem fromUrl_addressUrl_of_not_isKnown (scheme : Scheme) (hparse : IpAddr.parse text = some ip)
    {port : Option Nat} (hknown : ¬IsKnown text ip port) :
    fromUrl num (addressUrl scheme text ip port) =
      .ok (newDomain scheme.proto (hostText text ip ++ portText port)) := by
  have hchars : ∀ c ∈ hostText text ip ++ portText port, c ≠ '-' ∧ c ≠ '\n' := by
    have haddr := IpAddr.isAddrChar_of_parse hparse
    intro c hc
    rcases List.mem_append.1 hc with hc | hc
    · cases ip with
      | v4 addr => exact (isAddrChar_ne (haddr c hc)).2.2.2
      | v6 addr =>
          rw [hostText, List.mem_append, List.mem_cons, List.mem_singleton] at hc
          rcases hc with (rfl | hc) | rfl
          · decide
          · exact (isAddrChar_ne (haddr c hc)).2.2.2
          · decide
    · cases port with
      | none => cases hc
      | some port =>
          rcases List.mem_cons.1 hc with rfl | hc
          · decide
          · have hdecimal : isDigit 10 c = true :=
              isDigit_of_mem_toDigits (by decide) (by decide) hc
            have hdigit : isDigit 16 c = true := isDigit_of_le (by decide) hdecimal
            exact (isAddrChar_ne (.inl hdigit)).2.2.2
  have hdomain : IsDomainText (hostText text ip ++ portText port) := by
    have hne : hostText text ip ++ portText port ≠ [] := by
      cases ip with
      | v4 addr =>
          rw [hostText, IpAddr.parse_eq_v4_iff.1 hparse]
          exact List.append_ne_nil_of_left_ne_nil (IpAddr.display_ne_nil (.v4 addr)) _
      | v6 addr => simp [hostText]
    obtain ⟨c, cs, hcons⟩ := List.exists_cons_of_ne_nil hne
    rw [hcons] at hchars ⊢
    exact ⟨c, cs, rfl, (hchars c List.mem_cons_self).1,
      fun hmem => (hchars _ (List.mem_cons_of_mem _ hmem)).2 rfl⟩
  have hcaptures := captures_authorityRegex_of_no_ip num (mt (isKnown_iff hparse port).2 hknown)
  rw [← List.append_assoc, captures_domain num hdomain] at hcaptures
  have hafter : IsAfter num ['/'] [] := .inl ⟨rfl, rfl⟩
  rw [addressUrl, ← List.append_assoc (hostText text ip)]
  exact fromUrl_of_domain scheme hafter hcaptures

def addressHost (scheme : Scheme) (ip : IpAddr) : Option Nat → Except Unit Host
  | none => .ok (newIp scheme.proto ip)
  | some port =>
      if 1 ≤ port ∧ port ≤ 65535 then .ok (newIp scheme.proto ip) else .error ()

theorem addressHost_ne_domain (scheme : Scheme) (ip : IpAddr) (port : Option Nat) (domain : Str) :
    addressHost scheme ip port ≠ .ok (newDomain scheme.proto domain) := by
  have hip : newIp scheme.proto ip ≠ newDomain scheme.proto domain := by
    cases ip <;> simp [newIp, newDomain]
  cases port with
  | none => simpa [addressHost] using hip
  | some port =>
      rw [addressHost]
      split_ifs
      · simpa using hip
      · simp

/-- The inputs on which `fromUrl` reads an address as it should: an IPv4 address without a
port or with one of a single digit but zero, and an IPv6 address of digits and colons with
the port zero, which has no host. -/
def IsReadRight (text : Str) (port : Option Nat) : IpAddr → Prop
  | .v4 _ => ∀ p ∈ port, 1 ≤ p ∧ p ≤ 9
  | .v6 _ => port = some 0 ∧ ∀ c ∈ text, isIpv6Char c = true

/-- The URL of an address gives the host it should, and no domain, exactly for these inputs. -/
theorem fromUrl_addressUrl_iff (num : DecimalNumbers) (scheme : Scheme) (port : Option Nat)
    (hparse : IpAddr.parse text = some ip) :
    fromUrl num (addressUrl scheme text ip port) = addressHost scheme ip port ↔
      IsReadRight text port ip := by
  by_cases hknown : IsKnown text ip port
  · rw [fromUrl_addressUrl_of_isKnown scheme hparse hknown, parse_hostText hparse]
    obtain ⟨htext, hport⟩ := hknown
    cases ip with
    | v4 addr =>
        cases port with
        | none => simp [addressHost, IsReadRight]
        | some port =>
            have hlt := hport port rfl
            simp only [Option.map_some, Option.elim_some, addressHost, IsReadRight,
              Option.mem_def, Option.some.injEq, forall_eq']
            split_ifs with hrange
            · exact ⟨fun _ => by omega, fun _ => rfl⟩
            · exact ⟨fun heq => (by cases heq), fun hright => absurd hright (by omega)⟩
    | v6 addr =>
        have htext := htext addr rfl
        cases port with
        | none => simp [addressHost, IsReadRight]
        | some port =>
            have hlt := hport port rfl
            simp only [Option.map_none, Option.elim_none, addressHost, IsReadRight,
              Option.some.injEq]
            split_ifs with hrange
            · exact ⟨fun heq => (by cases heq), fun hright => absurd hright.1 (by omega)⟩
            · exact ⟨fun _ => ⟨by omega, htext⟩, fun _ => rfl⟩
  · rw [fromUrl_addressUrl_of_not_isKnown scheme hparse hknown]
    refine iff_of_false (Ne.symm (addressHost_ne_domain scheme ip port _)) ?_
    -- what is read right is known
    intro hright
    apply hknown
    cases ip with
    | v4 addr =>
        refine ⟨fun addr haddr => (by cases haddr), fun p hp => ?_⟩
        have hrange := hright p hp
        omega
    | v6 addr =>
        obtain ⟨rfl, htext⟩ := hright
        exact ⟨fun _ _ => htext, fun p hp => by rw [← Option.some.inj hp]; decide⟩

/-- An address with the port 8. -/
theorem fromUrl_port_eight :
    fromUrl .ofAscii (addressUrl .https "1.2.3.4".toList (.v4 ⟨1, 2, 3, 4⟩) (some 8)) =
      .ok (newIp .https (.v4 ⟨1, 2, 3, 4⟩)) :=
  (fromUrl_addressUrl_iff .ofAscii .https (some 8)
    (show IpAddr.parse "1.2.3.4".toList = some (.v4 ⟨1, 2, 3, 4⟩) by decide)).2 (by
      rintro p hp
      obtain rfl := Option.some.inj hp
      decide)

/-- With the port 80 it is a domain. -/
theorem fromUrl_port_eighty :
    IpAddr.parse "1.2.3.4".toList = some (.v4 ⟨1, 2, 3, 4⟩) ∧
    addressUrl .http "1.2.3.4".toList (.v4 ⟨1, 2, 3, 4⟩) (some 80) =
      "http://1.2.3.4:80/".toList ∧
    fromUrl .ofAscii "http://1.2.3.4:80/".toList =
      .ok (newDomain .http "1.2.3.4:80".toList) ∧
    fromUrl .ofAscii "http://1.2.3.4:80/".toList ≠
      addressHost .http (.v4 ⟨1, 2, 3, 4⟩) (some 80) := by
  have hparse : IpAddr.parse "1.2.3.4".toList = some (.v4 ⟨1, 2, 3, 4⟩) := by decide
  have hurl : addressUrl .http "1.2.3.4".toList (.v4 ⟨1, 2, 3, 4⟩) (some 80) =
      "http://1.2.3.4:80/".toList := by decide
  have hknown : ¬IsKnown "1.2.3.4".toList (.v4 ⟨1, 2, 3, 4⟩) (some 80) :=
    fun hknown => absurd (hknown.2 80 rfl) (by decide)
  have hdomain : fromUrl .ofAscii "http://1.2.3.4:80/".toList =
      .ok (newDomain .http "1.2.3.4:80".toList) := by
    rw [← hurl]
    exact fromUrl_addressUrl_of_not_isKnown .http hparse hknown
  refine ⟨hparse, hurl, hdomain, ?_⟩
  rw [hdomain]
  exact Ne.symm (addressHost_ne_domain _ _ _ _)

/-- An IPv6 address is no host with or without a port. -/
example : fromUrl .ofAscii "http://[::1]/".toList = .error () ∧
    fromUrl .ofAscii "http://[::1]:80/".toList =
      .ok (newDomain .http "[::1]:80".toList) := by
  decide

end Addresses

/-! ## The host that is read -/

section Read

open Regex

variable {num : DecimalNumbers} {text : Str} {caps : Captures}

theorem exists_way_of_captures (hcaptures : (authorityRegex num).captures text = some caps) :
    ∃ host after capsAfter, text = host ++ after ∧ IsAfter num after capsAfter ∧
      ((IsIpv4Text num host ∨ IsIpv6Text host) ∧ caps = capsAfter ++ [("ip", host)] ∨
        caps = capsAfter ++ [("domain", host)]) := by
  obtain ⟨taken, rest, htext, hmatches⟩ := exists_matches_of_captures hcaptures
  have hway := (mem_results_iff _ _ _ _).2 ⟨taken, htext, hmatches⟩
  rw [authorityRegex, results_seq_alt, List.mem_append] at hway
  rcases hway with hip | hdomain
  · obtain ⟨-, host, after, capsAfter, htext, hhost, hafter, hcaps⟩ :=
      (mem_results_host_iff num ((takes_ipv4Regex num).alt takes_ipv6Regex)).1 hip
    exact ⟨host, after, capsAfter, htext, hafter, .inl ⟨hhost, hcaps⟩⟩
  · obtain ⟨-, host, after, capsAfter, htext, -, hafter, hcaps⟩ :=
      (mem_results_host_iff num takes_domainRegex).1 hdomain
    exact ⟨host, after, capsAfter, htext, hafter, .inr hcaps⟩

theorem display_of_parse {host : Str} {ip : IpAddr}
    (hhost : IsIpv4Text num host ∨ IsIpv6Text host) (hparse : IpAddr.parse host = some ip) :
    ip.display = host := by
  rcases hhost with hipv4 | ⟨inner, rfl, -⟩
  · exact IpAddr.display_of_parse (not_mem_of_isIpv4Text hipv4 (by simp)) hparse
  · exact absurd rfl
      (isAddrChar_ne (IpAddr.isAddrChar_of_parse hparse '[' List.mem_cons_self)).2.1

/-- The host has the scheme of the URL and what stands behind it, up to a port of one digit. -/
theorem domain_of_fromUrl {scheme : Scheme} {authority : Str} {host : Host}
    (hhost : fromUrl num (scheme.text ++ "://".toList ++ (authority ++ ['/'])) = .ok host) :
    host.proto = scheme.proto ∧
      (authority = host.domain ∨ ∃ d, authority = host.domain ++ [':', d]) := by
  cases hcaptures : (authorityRegex num).captures (authority ++ ['/']) with
  | none =>
      rw [fromUrl, captures_hostRegex, hcaptures] at hhost
      cases hhost
  | some caps =>
      obtain ⟨captured, after, capsAfter, htext, hafter, hway⟩ := exists_way_of_captures hcaptures
      have hauthority : authority = captured ∨ ∃ d, authority = captured ++ [':', d] := by
        rcases hafter with ⟨rfl, -⟩ | ⟨d, -, rfl, -⟩
        · exact .inl (List.append_cancel_right htext)
        · have hport : authority ++ ['/'] = (captured ++ [':', d]) ++ ['/'] := by simpa using htext
          exact .inr ⟨d, List.append_cancel_right hport⟩
      have hread : host.proto = scheme.proto ∧ host.domain = captured := by
        rcases hway with ⟨haddress, rfl⟩ | rfl
        · rw [fromUrl_of_ip scheme hafter hcaptures] at hhost
          cases hparse : IpAddr.parse captured with
          | none =>
              rw [hparse] at hhost
              cases hhost
          | some ip =>
              rw [hparse] at hhost
              obtain rfl := Except.ok.inj hhost
              rw [← display_of_parse haddress hparse]
              cases ip <;> exact ⟨rfl, rfl⟩
        · rw [fromUrl_of_domain scheme hafter hcaptures] at hhost
          obtain rfl := Except.ok.inj hhost
          exact ⟨rfl, rfl⟩
      rw [← hread.2] at hauthority
      exact ⟨hread.1, hauthority⟩

/-- The URL of a host ends with a slash, so it is not the URL it was read from without one. -/
theorem url_ne_of_fromUrl {scheme : Scheme} {authority : Str} {host : Host}
    (hhost : fromUrl num (scheme.text ++ "://".toList ++ (authority ++ ['/'])) = .ok host) :
    host.url ≠ scheme.text ++ "://".toList ++ authority := by
  obtain ⟨hproto, hauthority⟩ := domain_of_fromUrl hhost
  intro heq
  rw [url, hproto, ← Scheme.text, List.append_assoc (scheme.text ++ "://".toList),
    List.append_cancel_left_eq] at heq
  have hlength := congrArg List.length heq
  rcases hauthority with rfl | ⟨d, rfl⟩
  · simp at hlength
  · simp at hlength

end Read

end Host

end WsHyper.Utils
