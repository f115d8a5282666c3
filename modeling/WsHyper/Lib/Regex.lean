import WsHyper.Lib.Path

/-!
# Regular expressions with groups

A backtracking search tries the ways to match in an order: the left side of an
alternative before the right one, one more round of a loop before none.
`results` lists what is captured and left over on each way, in this order; the
first entry counts.  `Matches` says without an order what a way takes, and the
list holds exactly the ways there are.
-/

namespace WsHyper.Lib

inductive Regex
  | empty
  /-- One character of a class. -/
  | one (p : Char → Bool)
  | seq (r s : Regex)
  | alt (r s : Regex)
  /-- Greedy. -/
  | star (r : Regex)
  | group (name : String) (r : Regex)
  /-- The end of the text. -/
  | atEnd

/-- What the groups took; the last group of a name comes first. -/
abbrev Captures := List (String × Str)

def Captures.name (caps : Captures) (group : String) : Option Str := caps.lookup group

@[simp] theorem Captures.name_nil (group : String) : Captures.name [] group = none := rfl

@[simp] theorem Captures.name_cons (caps : Captures) (group other : String) (taken : Str) :
    Captures.name ((other, taken) :: caps) group =
      if group = other then some taken else Captures.name caps group := by
  rw [Captures.name, List.lookup_cons]
  split_ifs with hsame
  · simp [hsame]
  · rw [beq_false_of_ne hsame]
    rfl

namespace Regex

/-- `(r)?`, greedy. -/
def opt (r : Regex) : Regex := alt r empty

/-- `r{0,n}`, greedy. -/
def upTo : Nat → Regex → Regex
  | 0, _ => empty
  | n + 1, r => opt (seq r (upTo n r))

def lit : Str → Regex
  | [] => empty
  | c :: cs => seq (one (· == c)) (lit cs)

/-! ## All ways in order -/

/-- A way to match: what was captured, and the text behind. -/
abbrev Way := Captures × Str

def andThen (ways : List Way) (next : Str → List Way) : List Way :=
  ways.flatMap fun (caps, text) => (next text).map fun (caps', rest) => (caps' ++ caps, rest)

/-- Rounds that take something, as many as possible first. -/
def rounds (round : Str → List Way) : Nat → Str → List Way
  | 0, text => [([], text)]
  | n + 1, text =>
      andThen ((round text).filter fun way => way.2.length < text.length) (rounds round n) ++
        [([], text)]

def results : Regex → Str → List Way
  | empty, text => [([], text)]
  | one _, [] => []
  | one p, c :: text => if p c then [([], text)] else []
  | seq r s, text => andThen (r.results text) s.results
  | alt r s, text => r.results text ++ s.results text
  | star r, text => rounds r.results text.length text
  | group name r, text => (r.results text).map fun (caps, rest) =>
      ((name, text.take (text.length - rest.length)) :: caps, rest)
  | atEnd, text => if text = [] then [([], [])] else []

/-- The captures of a search that is anchored at the start of the text. -/
def captures (r : Regex) (text : Str) : Option Captures := (r.results text).head?.map Prod.fst

/-! ## What a way takes -/

inductive Rounds (round : Str → Captures → Str → Prop) : Str → Captures → Str → Prop
  | done (rest : Str) : Rounds round [] [] rest
  | more {taken taken' rest : Str} {caps caps' : Captures}
      (hround : round taken caps (taken' ++ rest)) (hne : taken ≠ [])
      (hrounds : Rounds round taken' caps' rest) :
      Rounds round (taken ++ taken') (caps' ++ caps) rest

/-- In front of `rest` the expression takes `taken`. -/
def Matches : Regex → Str → Captures → Str → Prop
  | empty, taken, caps, _ => taken = [] ∧ caps = []
  | one p, taken, caps, _ => ∃ c, taken = [c] ∧ p c = true ∧ caps = []
  | seq r s, taken, caps, rest =>
      ∃ left right capsLeft capsRight, taken = left ++ right ∧ caps = capsRight ++ capsLeft ∧
        r.Matches left capsLeft (right ++ rest) ∧ s.Matches right capsRight rest
  | alt r s, taken, caps, rest => r.Matches taken caps rest ∨ s.Matches taken caps rest
  | star r, taken, caps, rest => Rounds r.Matches taken caps rest
  | group name r, taken, caps, rest =>
      ∃ inner, caps = (name, taken) :: inner ∧ r.Matches taken inner rest
  | atEnd, taken, caps, rest => taken = [] ∧ caps = [] ∧ rest = []

variable {r s : Regex} {text taken rest : Str} {caps : Captures}

theorem mem_andThen {ways : List Way} {next : Str → List Way} :
    (caps, rest) ∈ andThen ways next ↔
      ∃ capsLeft mid capsRight, (capsLeft, mid) ∈ ways ∧ (capsRight, rest) ∈ next mid ∧
        caps = capsRight ++ capsLeft := by
  simp only [andThen, List.mem_flatMap, List.mem_map, Prod.mk.injEq, Prod.exists]
  constructor
  · rintro ⟨capsLeft, mid, hleft, capsRight, rest', hright, rfl, rfl⟩
    exact ⟨capsLeft, mid, capsRight, hleft, hright, rfl⟩
  · rintro ⟨capsLeft, mid, capsRight, hleft, hright, rfl⟩
    exact ⟨capsLeft, mid, hleft, capsRight, rest, hright, rfl, rfl⟩

/-- The ways through a loop are the sequences of rounds, when there is a bound on their number
that the text cannot exceed. -/
theorem mem_rounds_iff {round : Str → List Way} {M : Str → Captures → Str → Prop}
    (hround : ∀ text caps rest,
      (caps, rest) ∈ round text ↔ ∃ taken, text = taken ++ rest ∧ M taken caps rest)
    {n : Nat} (hlength : text.length ≤ n) :
    (caps, rest) ∈ rounds round n text ↔
      ∃ taken, text = taken ++ rest ∧ Rounds M taken caps rest := by
  induction n generalizing text caps with
  | zero =>
      obtain rfl : text = [] := List.length_eq_zero_iff.1 (Nat.le_zero.1 hlength)
      simp only [rounds, List.mem_singleton, Prod.mk.injEq, List.nil_eq, List.append_eq_nil_iff]
      constructor
      · rintro ⟨rfl, rfl⟩
        exact ⟨[], ⟨rfl, rfl⟩, .done []⟩
      · rintro ⟨taken, ⟨rfl, rfl⟩, hrounds⟩
        generalize htaken : ([] : Str) = taken at hrounds
        cases hrounds with
        | done => exact ⟨rfl, rfl⟩
        | more _ hne => exact absurd (List.append_eq_nil_iff.1 htaken.symm).1 hne
  | succ n ih =>
      rw [rounds, List.mem_append, List.mem_singleton, mem_andThen]
      constructor
      · rintro (⟨capsLeft, mid, capsRight, hleft, hright, rfl⟩ | heq)
        · obtain ⟨hmem, hlt⟩ := List.mem_filter.1 hleft
          obtain ⟨first, rfl, hfirst⟩ := (hround _ _ _).1 hmem
          simp only [List.length_append, decide_eq_true_eq] at hlt hlength
          obtain ⟨later, rfl, hlater⟩ := (ih (by omega)).1 hright
          have hne : first ≠ [] := by
            rintro rfl
            simp at hlt
          exact ⟨first ++ later, by simp, .more hfirst hne hlater⟩
        · obtain ⟨rfl, rfl⟩ := Prod.mk.inj heq
          exact ⟨[], rfl, .done _⟩
      · rintro ⟨taken, rfl, hrounds⟩
        cases hrounds with
        | done => exact .inr rfl
        | @more first later _ capsLeft capsRight hfirst hne hlater =>
            have hpos : 0 < first.length := List.length_pos_iff.2 hne
            simp only [List.length_append] at hlength
            refine .inl ⟨capsLeft, later ++ rest, capsRight, ?_, ?_, rfl⟩
            · refine List.mem_filter.2 ⟨(hround _ _ _).2 ⟨first, by simp, hfirst⟩, ?_⟩
              simp only [List.length_append, decide_eq_true_eq]
              omega
            · exact (ih (by rw [List.length_append]; omega)).2 ⟨later, rfl, hlater⟩

theorem mem_results_iff (r : Regex) (text : Str) (caps : Captures) (rest : Str) :
    (caps, rest) ∈ r.results text ↔ ∃ taken, text = taken ++ rest ∧ r.Matches taken caps rest := by
  induction r generalizing text caps rest with
  | empty =>
      simp only [results, Matches, List.mem_singleton, Prod.mk.injEq]
      constructor
      · rintro ⟨rfl, rfl⟩
        exact ⟨[], rfl, rfl, rfl⟩
      · rintro ⟨taken, rfl, rfl, rfl⟩
        exact ⟨rfl, rfl⟩
  | one p =>
      simp only [Matches]
      cases text with
      | nil => simp [results]
      | cons c text =>
          simp only [results]
          constructor
          · intro hmem
            split_ifs at hmem with hp
            · obtain ⟨rfl, rfl⟩ := Prod.mk.inj (List.mem_singleton.1 hmem)
              exact ⟨[c], rfl, c, rfl, hp, rfl⟩
            · cases hmem
          · rintro ⟨taken, htext, d, rfl, hp, rfl⟩
            obtain ⟨rfl, rfl⟩ := List.cons.inj htext
            rw [if_pos hp]
            exact List.mem_singleton_self _
  | seq r s ihr ihs =>
      simp only [results, Matches, mem_andThen]
      constructor
      · rintro ⟨capsLeft, mid, capsRight, hleft, hright, rfl⟩
        obtain ⟨left, rfl, hr⟩ := (ihr _ _ _).1 hleft
        obtain ⟨right, rfl, hs⟩ := (ihs _ _ _).1 hright
        exact ⟨left ++ right, by simp, left, right, capsLeft, capsRight, rfl, rfl, hr, hs⟩
      · rintro ⟨taken, rfl, left, right, capsLeft, capsRight, rfl, rfl, hr, hs⟩
        exact ⟨capsLeft, right ++ rest, capsRight, (ihr _ _ _).2 ⟨left, by simp, hr⟩,
          (ihs _ _ _).2 ⟨right, rfl, hs⟩, rfl⟩
  | alt r s ihr ihs =>
      simp only [results, Matches, List.mem_append, ihr, ihs, and_or_left, exists_or]
  | star r ih =>
      simp only [results, Matches]
      exact mem_rounds_iff ih (Nat.le_refl _)
  | group name r ih =>
      simp only [results, Matches, List.mem_map, Prod.exists, Prod.mk.injEq]
      constructor
      · rintro ⟨inner, rest', hmem, rfl, rfl⟩
        obtain ⟨taken, rfl, hr⟩ := (ih _ _ _).1 hmem
        exact ⟨taken, rfl, inner, by simp, hr⟩
      · rintro ⟨taken, rfl, inner, rfl, hr⟩
        exact ⟨inner, rest, (ih _ _ _).2 ⟨taken, rfl, hr⟩, by simp, rfl⟩
  | atEnd =>
      simp only [results, Matches]
      constructor
      · intro hmem
        split_ifs at hmem with htext
        · obtain ⟨rfl, rfl⟩ := Prod.mk.inj (List.mem_singleton.1 hmem)
          exact ⟨[], htext, rfl, rfl, rfl⟩
        · cases hmem
      · rintro ⟨taken, rfl, rfl, rfl, rfl⟩
        exact List.mem_singleton_self _

/-! ## Expressions that look at nothing but what they take -/

/-- The expression captures nothing, and takes the texts of `P` whatever follows. -/
def Takes (r : Regex) (P : Str → Prop) : Prop :=
  ∀ taken caps rest, r.Matches taken caps rest ↔ caps = [] ∧ P taken

namespace Takes

variable {P Q : Str → Prop}

theorem congr (hr : Takes r P) (hiff : ∀ text, P text ↔ Q text) : Takes r Q := by
  intro taken caps rest
  rw [hr, hiff]

theorem empty : Takes empty (· = []) := fun _ _ _ => and_comm

theorem one (p : Char → Bool) : Takes (one p) fun text => ∃ c, text = [c] ∧ p c = true := by
  intro taken caps rest
  constructor
  · rintro ⟨c, rfl, hp, rfl⟩
    exact ⟨rfl, c, rfl, hp⟩
  · rintro ⟨rfl, c, rfl, hp⟩
    exact ⟨c, rfl, hp, rfl⟩

theorem seq (hr : Takes r P) (hs : Takes s Q) :
    Takes (seq r s) fun text => ∃ left right, text = left ++ right ∧ P left ∧ Q right := by
  intro taken caps rest
  constructor
  · rintro ⟨left, right, capsLeft, capsRight, rfl, rfl, hleft, hright⟩
    obtain ⟨rfl, hP⟩ := (hr _ _ _).1 hleft
    obtain ⟨rfl, hQ⟩ := (hs _ _ _).1 hright
    exact ⟨rfl, left, right, rfl, hP, hQ⟩
  · rintro ⟨rfl, left, right, rfl, hP, hQ⟩
    exact ⟨left, right, [], [], rfl, rfl, (hr _ _ _).2 ⟨rfl, hP⟩, (hs _ _ _).2 ⟨rfl, hQ⟩⟩

theorem alt (hr : Takes r P) (hs : Takes s Q) : Takes (alt r s) fun text => P text ∨ Q text := by
  intro taken caps rest
  rw [Matches, hr, hs, and_or_left]

theorem lit (w : Str) : Takes (lit w) (· = w) := by
  induction w with
  | nil => exact empty
  | cons c w ih =>
      refine ((one (· == c)).seq ih).congr fun text => ?_
      simp only [beq_iff_eq]
      constructor
      · rintro ⟨_, _, rfl, ⟨d, rfl, rfl⟩, rfl⟩
        rfl
      · rintro rfl
        exact ⟨[c], w, rfl, ⟨c, rfl, rfl⟩, rfl⟩

theorem upTo_one (n : Nat) (p : Char → Bool) :
    Takes (upTo n (.one p)) fun text => text.length ≤ n ∧ ∀ c ∈ text, p c = true := by
  induction n with
  | zero =>
      refine empty.congr fun text => ?_
      rw [Nat.le_zero, List.length_eq_zero_iff]
      constructor
      · rintro rfl
        exact ⟨rfl, List.forall_mem_nil _⟩
      · exact And.left
  | succ n ih =>
      refine (((one p).seq ih).alt empty).congr fun text => ?_
      constructor
      · rintro (⟨_, right, rfl, ⟨c, rfl, hc⟩, hlength, hright⟩ | rfl)
        · exact ⟨Nat.succ_le_succ hlength, List.forall_mem_cons.2 ⟨hc, hright⟩⟩
        · exact ⟨Nat.zero_le _, List.forall_mem_nil _⟩
      · rintro ⟨hlength, hall⟩
        cases text with
        | nil => exact .inr rfl
        | cons c text =>
            rw [List.forall_mem_cons] at hall
            exact .inl ⟨[c], text, rfl, ⟨c, rfl, hall.1⟩, Nat.le_of_succ_le_succ hlength, hall.2⟩

theorem star_one (p : Char → Bool) : Takes (star (.one p)) fun text => ∀ c ∈ text, p c = true := by
  intro taken caps rest
  constructor
  · intro hrounds
    induction hrounds with
    | done => exact ⟨rfl, List.forall_mem_nil _⟩
    | more hround _ _ ih =>
        obtain ⟨rfl, c, rfl, hc⟩ := (one p _ _ _).1 hround
        exact ⟨by rw [ih.1, List.append_nil], List.forall_mem_cons.2 ⟨hc, ih.2⟩⟩
  · rintro ⟨rfl, hall⟩
    induction taken with
    | nil => exact .done rest
    | cons c taken ih =>
        rw [List.forall_mem_cons] at hall
        have hround : (Regex.one p).Matches [c] [] (taken ++ rest) := ⟨c, rfl, hall.1, rfl⟩
        exact .more hround (List.cons_ne_nil c []) (ih hall.2)

theorem matches_group_iff (hr : Takes r P) {name : String} :
    (group name r).Matches taken caps rest ↔ caps = [(name, taken)] ∧ P taken := by
  constructor
  · rintro ⟨inner, rfl, hmatches⟩
    obtain ⟨rfl, hP⟩ := (hr _ _ _).1 hmatches
    exact ⟨rfl, hP⟩
  · rintro ⟨rfl, hP⟩
    exact ⟨[], rfl, (hr _ _ _).2 ⟨rfl, hP⟩⟩

end Takes

/-! ## The order of the results -/

theorem andThen_append (ways ways' : List Way) (next : Str → List Way) :
    andThen (ways ++ ways') next = andThen ways next ++ andThen ways' next := by
  rw [andThen, List.flatMap_append]
  rfl

theorem andThen_cons (caps : Captures) (text : Str) (ways : List Way) (next : Str → List Way) :
    andThen ((caps, text) :: ways) next =
      (next text).map (fun way => (way.1 ++ caps, way.2)) ++ andThen ways next := rfl

@[simp] theorem andThen_nil (next : Str → List Way) : andThen [] next = [] := rfl

/-- The ways through the left alternative come first, whatever follows. -/
theorem results_seq_alt (r s t : Regex) (text : Str) :
    (seq (alt r s) t).results text = (seq r t).results text ++ (seq s t).results text :=
  andThen_append (r.results text) (s.results text) t.results

theorem results_lit_append (w text : Str) : (lit w).results (w ++ text) = [([], text)] := by
  induction w with
  | nil => rfl
  | cons c w ih =>
      rw [lit, List.cons_append, results, results, if_pos (beq_self_eq_true c), andThen_cons, ih]
      rfl

theorem results_lit_eq_nil {w text : Str} (hstart : ¬w <+: text) : (lit w).results text = [] := by
  rw [List.eq_nil_iff_forall_not_mem]
  rintro ⟨caps, rest⟩ hmem
  obtain ⟨taken, rfl, hmatches⟩ := (mem_results_iff _ _ _ _).1 hmem
  rw [((Takes.lit w _ _ _).1 hmatches).2] at hstart
  exact hstart (List.prefix_append w rest)

theorem exists_captures_of_left {ways others : List Way}
    (hresults : r.results text = ways ++ others) (hne : ways ≠ []) :
    ∃ way ∈ ways, captures r text = some way.1 := by
  cases ways with
  | nil => exact absurd rfl hne
  | cons way ways =>
      refine ⟨way, List.mem_cons_self, ?_⟩
      rw [captures, hresults]
      rfl

theorem exists_matches_of_captures (hcaptures : captures r text = some caps) :
    ∃ taken rest, text = taken ++ rest ∧ r.Matches taken caps rest := by
  obtain ⟨⟨caps', rest⟩, hhead, rfl⟩ := Option.map_eq_some_iff.1 hcaptures
  obtain ⟨taken, htext, hmatches⟩ :=
    (mem_results_iff _ _ _ _).1 (List.mem_of_mem_head? (Option.mem_def.2 hhead))
  exact ⟨taken, rest, htext, hmatches⟩

theorem results_star_one_cons {p : Char → Bool} {c : Char} (hc : p c = true) (text : Str) :
    (star (one p)).results (c :: text) = (star (one p)).results text ++ [([], c :: text)] := by
  rw [results, List.length_cons, rounds, results, if_pos hc,
    List.filter_cons_of_pos (by simp), List.filter_nil, andThen_cons, andThen_nil,
    List.append_nil, results]
  simp

/-- The ways that take more come first. -/
theorem results_star_one_append {p : Char → Bool} {front : Str} (hfront : ∀ c ∈ front, p c = true)
    (text : Str) :
    ∃ others, (star (one p)).results (front ++ text) = (star (one p)).results text ++ others := by
  induction front with
  | nil => exact ⟨[], by simp⟩
  | cons c front ih =>
      rw [List.forall_mem_cons] at hfront
      obtain ⟨others, hothers⟩ := ih hfront.2
      refine ⟨others ++ [([], c :: (front ++ text))], ?_⟩
      rw [List.cons_append, results_star_one_cons hfront.1, hothers, List.append_assoc]

end Regex

end WsHyper.Lib
