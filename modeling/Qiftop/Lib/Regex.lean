import Mathlib.Data.List.Infix

/-!
# Lib — patterns with backtracking

The part of Perl-compatible regular expressions without nested repetition: classes and their greedy
repetition, alternatives, one group, and the two anchors.  `run` lists the matches at one place in the
order in which a backtracking matcher tries them, so the first of the list is the match found; `search`
tries the places from the left and `globalMatch` goes on behind each match.

A match is described by what it took and what it left (`run_append`): `search_eq_none_iff` and
`search_some` say where a search stopped, and the `run_` lemmas how each kind of pattern matches.
-/

namespace Qiftop.Lib

inductive Pattern where
  /-- One character of a class. -/
  | char (p : Char → Bool)
  /-- As many characters of a class as possible, within bounds. -/
  | many (p : Char → Bool) (lo : ℕ) (hi : Option ℕ)
  | empty
  | seq (a b : Pattern)
  | alt (a b : Pattern)
  /-- The text matched is captured. -/
  | group (a : Pattern)
  /-- The start of the text. -/
  | first
  /-- The end of the text, or the place before a line feed that ends it. -/
  | last

/-- A match: what it took, what the group took of it, and the text that follows. -/
structure Match where
  text : List Char
  group : Option (List Char) := none
  rest : List Char
  deriving DecidableEq, Repr

/-- `m` behind a text matched before. -/
def Match.behind (u : List Char) (m : Match) : Match := { m with text := u ++ m.text }

/-- What the group took. -/
def Match.captured (m : Match) : List Char := m.group.getD []

namespace Pattern

/-- A word, then a pattern. -/
def lit : List Char → Pattern → Pattern
  | [], r => r
  | c :: w, r => seq (char (· == c)) (lit w r)

/-- A pattern or nothing. -/
def opt (a : Pattern) : Pattern := alt a empty

/-- So many characters of a class. -/
def exactly (p : Char → Bool) (n : ℕ) : Pattern := many p n (some n)

/-- The ways to take characters of a class, the longest first. -/
def greedy (p : Char → Bool) : ℕ → Option ℕ → List Char → List (List Char × List Char)
  | lo, _, [] => if lo = 0 then [([], [])] else []
  | lo, hi, c :: s =>
      (if p c ∧ hi ≠ some 0 then
        (greedy p (lo - 1) (hi.map (· - 1)) s).map fun m => (c :: m.1, m.2)
      else []) ++ if lo = 0 then [([], c :: s)] else []

/-- The matches at one place, the preferred one first; `start` says that it is the start of the text. -/
def run : Pattern → (start : Bool) → List Char → List Match
  | char _, _, [] => []
  | char p, _, c :: s => if p c then [{ text := [c], rest := s }] else []
  | many p lo hi, _, s => (greedy p lo hi s).map fun m => { text := m.1, rest := m.2 }
  | empty, _, s => [{ text := [], rest := s }]
  | seq a b, start, s =>
      (run a start s).flatMap fun m => (run b (start && m.text.isEmpty) m.rest).map fun m' =>
        { text := m.text ++ m'.text, group := m'.group.or m.group, rest := m'.rest }
  | alt a b, start, s => run a start s ++ run b start s
  | group a, start, s => (run a start s).map fun m => { m with group := some m.text }
  | first, start, s => if start then [{ text := [], rest := s }] else []
  | last, _, s => if s = [] ∨ s = ['\n'] then [{ text := [], rest := s }] else []

/-- The leftmost match. -/
def search (r : Pattern) : (start : Bool) → List Char → Option Match
  | start, [] => (r.run start []).head?
  | start, c :: s => (r.run start (c :: s)).head?.or (search r false s)

/-- The match of a pattern in a text. -/
def exec (r : Pattern) (s : List Char) : Option Match := r.search true s

/-- The matches from a place on, each behind the one before.  An empty match would end the walk. -/
def allFrom (r : Pattern) : ℕ → (start : Bool) → List Char → List Match
  | 0, _, _ => []
  | n + 1, start, s =>
      match r.search start s with
      | none => []
      | some m => if m.text = [] then [m] else m :: allFrom r n false m.rest

/-- All matches of a pattern in a text. -/
def globalMatch (r : Pattern) (s : List Char) : List Match := r.allFrom (s.length + 1) true s

/-! ### What a match takes -/

/-- A number of repetitions within bounds. -/
structure Within (lo : ℕ) (hi : Option ℕ) (n : ℕ) : Prop where
  atLeast : lo ≤ n
  atMost : ∀ h, hi = some h → n ≤ h

theorem within_zero {lo : ℕ} {hi : Option ℕ} : Within lo hi 0 ↔ lo = 0 :=
  ⟨fun h => Nat.le_zero.mp h.atLeast, fun h => ⟨h.le, fun _ _ => Nat.zero_le _⟩⟩

theorem within_succ {lo : ℕ} {hi : Option ℕ} {n : ℕ} :
    Within lo hi (n + 1) ↔ hi ≠ some 0 ∧ Within (lo - 1) (hi.map (· - 1)) n := by
  constructor
  · intro h
    refine ⟨?_, ?_, ?_⟩
    · rintro rfl
      exact absurd (h.atMost 0 rfl) (Nat.not_succ_le_zero n)
    · have hle := h.atLeast
      omega
    · intro k hk
      obtain ⟨k', hk', rfl⟩ := Option.map_eq_some_iff.mp hk
      have hle := h.atMost k' hk'
      omega
  · rintro ⟨hne, h⟩
    refine ⟨?_, ?_⟩
    · have hle := h.atLeast
      omega
    · intro k hk
      have hle := h.atMost (k - 1) (by rw [hk]; rfl)
      have hpos : k ≠ 0 := fun e => hne (by rw [hk, e])
      omega

theorem mem_greedy_cons {p : Char → Bool} {lo : ℕ} {hi : Option ℕ} {c : Char} {s u t : List Char} :
    (u, t) ∈ greedy p lo hi (c :: s) ↔
      (∃ v, u = c :: v ∧ p c = true ∧ hi ≠ some 0 ∧ (v, t) ∈ greedy p (lo - 1) (hi.map (· - 1)) s) ∨
        u = [] ∧ t = c :: s ∧ lo = 0 := by
  rw [greedy, List.mem_append]
  refine or_congr ?_ ?_
  · by_cases hc : p c = true ∧ hi ≠ some 0
    · rw [if_pos hc, List.mem_map]
      constructor
      · rintro ⟨⟨v, t'⟩, hm, he⟩
        obtain ⟨rfl, rfl⟩ := Prod.mk.inj he
        exact ⟨v, rfl, hc.1, hc.2, hm⟩
      · rintro ⟨v, rfl, -, -, hm⟩
        exact ⟨(v, t), hm, rfl⟩
    · rw [if_neg hc]
      refine iff_of_false List.not_mem_nil ?_
      rintro ⟨v, -, hp, hne, -⟩
      exact hc ⟨hp, hne⟩
  · by_cases hlo : lo = 0
    · simp [hlo]
    · simp [hlo]

/-- What is taken: characters of the class, a number of them within the bounds. -/
theorem mem_greedy {p : Char → Bool} {lo : ℕ} {hi : Option ℕ} {s u t : List Char} :
    (u, t) ∈ greedy p lo hi s ↔ s = u ++ t ∧ (∀ c ∈ u, p c = true) ∧ Within lo hi u.length := by
  induction s generalizing lo hi u with
  | nil =>
      have hnil : (u, t) ∈ greedy p lo hi [] ↔ (u = [] ∧ t = []) ∧ lo = 0 := by
        rw [greedy]
        by_cases hlo : lo = 0 <;> simp [hlo]
      rw [hnil, List.nil_eq_append_iff]
      constructor
      · rintro ⟨⟨rfl, rfl⟩, hlo⟩
        exact ⟨⟨rfl, rfl⟩, fun c hc => absurd hc List.not_mem_nil, within_zero.mpr hlo⟩
      · rintro ⟨⟨rfl, rfl⟩, -, hwithin⟩
        exact ⟨⟨rfl, rfl⟩, within_zero.mp hwithin⟩
  | cons c s ih =>
      rw [mem_greedy_cons]
      constructor
      · rintro (⟨v, rfl, hc, hne, hm⟩ | ⟨rfl, rfl, hlo⟩)
        · obtain ⟨rfl, hp, hwithin⟩ := ih.mp hm
          exact ⟨rfl, List.forall_mem_cons.mpr ⟨hc, hp⟩, within_succ.mpr ⟨hne, hwithin⟩⟩
        · exact ⟨rfl, fun c hc => absurd hc List.not_mem_nil, within_zero.mpr hlo⟩
      · rintro ⟨he, hp, hwithin⟩
        cases u with
        | nil => exact .inr ⟨rfl, he.symm, within_zero.mp hwithin⟩
        | cons d v =>
            obtain ⟨rfl, rfl⟩ := List.cons.inj he
            obtain ⟨hc, hp⟩ := List.forall_mem_cons.mp hp
            obtain ⟨hne, hwithin⟩ := within_succ.mp hwithin
            exact .inl ⟨v, rfl, hc, hne, ih.mpr ⟨rfl, hp, hwithin⟩⟩

/-- A text of the exact length is taken in one way. -/
theorem greedy_exact {p : Char → Bool} {u : List Char} (hu : ∀ c ∈ u, p c = true) (t : List Char) :
    greedy p u.length (some u.length) (u ++ t) = [(u, t)] := by
  induction u with
  | nil => cases t <;> simp [greedy]
  | cons c u ih =>
      have hc : p c = true := hu c List.mem_cons_self
      have htail := ih fun x hx => hu x (List.mem_cons_of_mem c hx)
      simp [greedy, hc, htail]

/-- A match is a front of the text. -/
theorem run_append {r : Pattern} {start : Bool} {s : List Char} {m : Match} (h : m ∈ r.run start s) :
    s = m.text ++ m.rest := by
  induction r generalizing start s m with
  | char p =>
      cases s with
      | nil => cases h
      | cons c s =>
          rw [run] at h
          split at h
          · rw [List.mem_singleton.mp h]
            rfl
          · cases h
  | many p lo hi =>
      obtain ⟨⟨u, t⟩, hm, rfl⟩ := List.mem_map.mp h
      exact (mem_greedy.mp hm).1
  | empty =>
      rw [List.mem_singleton.mp h]
      rfl
  | seq a b iha ihb =>
      obtain ⟨m₁, hm₁, h⟩ := List.mem_flatMap.mp h
      obtain ⟨m₂, hm₂, rfl⟩ := List.mem_map.mp h
      rw [iha hm₁, ihb hm₂]
      exact (List.append_assoc _ _ _).symm
  | alt a b iha ihb =>
      rcases List.mem_append.mp h with h | h
      · exact iha h
      · exact ihb h
  | group a ih =>
      obtain ⟨m', hm', rfl⟩ := List.mem_map.mp h
      have he := ih hm'
      exact he
  | first =>
      rw [run] at h
      split at h
      · rw [List.mem_singleton.mp h]
        rfl
      · cases h
  | last =>
      rw [run] at h
      split at h
      · rw [List.mem_singleton.mp h]
        rfl
      · cases h

/-! ### Words and anchors -/

/-- A word at its place. -/
theorem run_lit_append (w : List Char) (r : Pattern) (start : Bool) (t : List Char) :
    (lit w r).run start (w ++ t) = (r.run (start && w.isEmpty) t).map (Match.behind w) := by
  induction w generalizing start with
  | nil =>
      have hid : Match.behind [] = id := rfl
      simp [lit, hid]
  | cons c w ih =>
      simp [lit, run, ih, Match.behind, Function.comp_def]

/-- A word that is not there. -/
theorem run_lit_absent {w : List Char} {t : List Char} (h : ¬ w <+: t) (r : Pattern) (start : Bool) :
    (lit w r).run start t = [] := by
  induction w generalizing start t with
  | nil => exact absurd List.nil_prefix h
  | cons c w ih =>
      cases t with
      | nil => rfl
      | cons d t =>
          by_cases hd : d = c
          · subst hd
            have htail : ¬ w <+: t := fun hw => h (List.cons_prefix_cons.mpr ⟨rfl, hw⟩)
            simp [lit, run, ih htail]
          · simp [lit, run, hd]

theorem mem_run_lit {w : List Char} {r : Pattern} {start : Bool} {s : List Char} {m : Match}
    (h : m ∈ (lit w r).run start s) :
    ∃ t m', s = w ++ t ∧ m' ∈ r.run (start && w.isEmpty) t ∧ m = m'.behind w := by
  by_cases hw : w <+: s
  · obtain ⟨t, rfl⟩ := hw
    rw [run_lit_append, List.mem_map] at h
    obtain ⟨m', hm', rfl⟩ := h
    exact ⟨t, m', rfl, hm', rfl⟩
  · rw [run_lit_absent hw] at h
    cases h

theorem run_first (r : Pattern) (s : List Char) : (seq first r).run true s = r.run true s := by
  simp [run]

theorem run_first_false (r : Pattern) (s : List Char) : (seq first r).run false s = [] := by
  simp [run]

/-! ### Where a search stops -/

theorem search_eq_none_iff {r : Pattern} {start : Bool} {s : List Char} :
    r.search start s = none ↔ ∀ u t, s = u ++ t → r.run (start && u.isEmpty) t = [] := by
  induction s generalizing start with
  | nil =>
      rw [search, List.head?_eq_none_iff]
      constructor
      · rintro h u t he
        obtain ⟨rfl, rfl⟩ := List.append_eq_nil_iff.mp he.symm
        simpa using h
      · intro h
        simpa using h [] [] rfl
  | cons c s ih =>
      rw [search, Option.or_eq_none_iff, List.head?_eq_none_iff, ih]
      constructor
      · rintro ⟨hhere, hlater⟩ u t he
        cases u with
        | nil =>
            obtain rfl : c :: s = t := he
            simpa using hhere
        | cons d u =>
            have hs : s = u ++ t := by
              injection he
            simpa using hlater u t hs
      · intro h
        refine ⟨by simpa using h [] (c :: s) rfl, fun u t he => ?_⟩
        simpa using h (c :: u) t (by rw [he]; rfl)

/-- A match at once. -/
theorem search_of_run {r : Pattern} {start : Bool} {s : List Char} {m : Match} {l : List Match}
    (h : r.run start s = m :: l) : r.search start s = some m := by
  cases s <;> rw [search, h] <;> rfl

/-- What is found is a match at its place. -/
theorem search_some {r : Pattern} {start : Bool} {s : List Char} {m : Match}
    (h : r.search start s = some m) :
    ∃ u, s = u ++ (m.text ++ m.rest) ∧ m ∈ r.run (start && u.isEmpty) (m.text ++ m.rest) := by
  -- a match begins where the search stopped; what it covers is known from `run_append`
  induction s generalizing start with
  | nil =>
      have hm := List.mem_of_head? h
      have he := run_append hm
      exact ⟨[], he, by rw [← he]; simpa using hm⟩
  | cons c s ih =>
      rw [search, Option.or_eq_some_iff] at h
      rcases h with h | ⟨-, h⟩
      · have hm := List.mem_of_head? h
        have he := run_append hm
        exact ⟨[], he, by rw [← he]; simpa using hm⟩
      · obtain ⟨u, hs, hm⟩ := ih h
        exact ⟨c :: u, by rw [hs]; rfl, by simpa using hm⟩

/-- An anchored pattern matches at the start or not at all. -/
theorem exec_first (r : Pattern) (s : List Char) : (seq first r).exec s = (r.run true s).head? := by
  -- the search goes on at every later place, where the anchor fails
  have hlater : ∀ s', (seq first r).search false s' = none := by
    intro s'
    rw [search_eq_none_iff]
    intro u t _
    exact run_first_false r t
  rw [exec]
  cases s with
  | nil => rw [search, run_first]
  | cons c s => rw [search, run_first, hlater, Option.or_none]

/-- An anchored word that is not there. -/
theorem exec_first_lit_absent {w s : List Char} (h : ¬ w <+: s) (r : Pattern) :
    (seq first (lit w r)).exec s = none := by
  rw [exec_first, run_lit_absent h, List.head?_nil]

/-- A pattern that starts with a word finds nothing in a text without the word. -/
theorem search_lit_of_not_infix {w s : List Char} (h : ¬ w <:+: s) (r : Pattern) (start : Bool) :
    (lit w r).search start s = none := by
  rw [search_eq_none_iff]
  rintro u t rfl
  refine run_lit_absent (fun hw => h ?_) r _
  exact hw.isInfix.trans (List.suffix_append u t).isInfix

end Pattern

end Qiftop.Lib
