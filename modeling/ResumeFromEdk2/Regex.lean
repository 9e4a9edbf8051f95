/-
**Backtracking regular expressions.**

A backtracking matcher tries the ways an expression can match at a position in a fixed order and
takes the first: a repetition tries the longest run first, an alternative its left side first.
This module has the expressions built from classes of characters, greedy runs of a class,
sequences, alternatives and groups, over any alphabet, with all their matches in that order, and
the scan for the leftmost matches that do not overlap.

What such a matcher finds is proved with two kinds of rules.  The rules for `first` compute the
match where greedy choices succeed; they go through a sequence from left to right.  The rules for
membership in `results` say what a match looks like, whatever was tried before it.

Main definitions:

* `Regex`, `Regex.Match` — expressions, and a match: the text taken, the text of each group, the
  text left;
* `Regex.results`, `Regex.first` — the matches at the start of a text, and the one taken;
* `Regex.lits`, `Regex.times` — a given text, and a given number of characters of a class;
* `Regex.scan`, `Regex.findall`, `Regex.sub` — the leftmost matches in a text that do not overlap,
  and the text with these replaced;
* `Regex.search` — the leftmost match.

Main results:

* `Regex.append_of_mem_results` — a match is a prefix;
* `Regex.first_seq`, `Regex.first_many` — greedy matching of a sequence and of a run;
* `Regex.findall_of_first`, `Regex.findall_of_none` — the steps of the scan;
* `Regex.findall_append` — scanning text from which no match runs on;
* `Regex.sub_of_first`, `Regex.sub_of_forall_none` — replacing the matches, match by match.
-/

import Mathlib.Data.List.Infix
import Mathlib.Data.Nat.Notation

set_option relaxedAutoImplicit false
set_option autoImplicit false

/-- Regular expressions over the alphabet `α`. -/
inductive Regex (α : Type*) where
  | empty
  /-- One character of a class. -/
  | char (p : α → Bool)
  /-- A run of any length of characters of a class, the longest first. -/
  | many (p : α → Bool)
  | seq (r s : Regex α)
  /-- `r` first, then `s`. -/
  | alt (r s : Regex α)
  | group (r : Regex α)

namespace Regex

variable {α : Type*}

/-- A run of at least one character. -/
def plus (p : α → Bool) : Regex α := seq (char p) (many p)

def opt (r : Regex α) : Regex α := alt r empty

def lit [DecidableEq α] (c : α) : Regex α := char fun d => d = c

/-- The characters of a text, one after the other. -/
def lits [DecidableEq α] (t : List α) : Regex α := t.foldr (fun c r => seq (lit c) r) empty

/-- `k` characters of a class. -/
def times (p : α → Bool) : ℕ → Regex α
  | 0 => empty
  | k + 1 => seq (char p) (times p k)

/-! ### Matches at the start of a text -/

/-- A match: the text taken, the text of each group in the order of the expression, and the text
left. -/
@[ext] structure Match (α : Type*) where
  taken : List α
  groups : List (List α)
  rest : List α

/-- A match of a sequence from matches of its two parts. -/
def Match.append (m₁ m₂ : Match α) : Match α where
  taken := m₁.taken ++ m₂.taken
  groups := m₁.groups ++ m₂.groups
  rest := m₂.rest

/-- The match of a run with one more character in front. -/
def Match.cons (c : α) (m : Match α) : Match α := { m with taken := c :: m.taken }

/-- The match that takes nothing. -/
def Match.nil (l : List α) : Match α := ⟨[], [], l⟩

def manyResults (p : α → Bool) : List α → List (Match α)
  | [] => [.nil []]
  | c :: l =>
      if p c then (manyResults p l).map (.cons c) ++ [.nil (c :: l)] else [.nil (c :: l)]

theorem manyResults_cons (p : α → Bool) (c : α) (l : List α) :
    manyResults p (c :: l) =
      if p c then (manyResults p l).map (.cons c) ++ [.nil (c :: l)] else [.nil (c :: l)] := rfl

/-- All matches of an expression at the start of a text, in the order they are tried. -/
def results : Regex α → List α → List (Match α)
  | empty, l => [.nil l]
  | char _, [] => []
  | char p, c :: l => if p c then [⟨[c], [], l⟩] else []
  | many p, l => manyResults p l
  | seq r s, l => (r.results l).flatMap fun m => (s.results m.rest).map m.append
  | alt r s, l => r.results l ++ s.results l
  | group r, l => (r.results l).map fun m => { m with groups := m.taken :: m.groups }

section Results

variable (p : α → Bool) (r s : Regex α) (l : List α)

theorem results_empty : (empty : Regex α).results l = [.nil l] := rfl

theorem results_char_nil : (char p).results [] = [] := rfl

theorem results_char_cons (c : α) :
    (char p).results (c :: l) = if p c then [⟨[c], [], l⟩] else [] := rfl

theorem results_many : (many p).results l = manyResults p l := rfl

theorem results_seq : (seq r s).results l =
    (r.results l).flatMap fun m => (s.results m.rest).map m.append := rfl

theorem results_alt : (alt r s).results l = r.results l ++ s.results l := rfl

theorem results_group : (group r).results l =
    (r.results l).map fun m => { m with groups := m.taken :: m.groups } := rfl

end Results

/-- The match that is taken. -/
def first (r : Regex α) (l : List α) : Option (Match α) := (r.results l).head?

theorem first_eq (r : Regex α) (l : List α) : r.first l = (r.results l).head? := rfl

theorem mem_results_of_first {r : Regex α} {l : List α} {m : Match α} (h : r.first l = some m) :
    m ∈ r.results l :=
  List.mem_of_mem_head? h

/-! ### What a match looks like -/

section Membership

variable {p : α → Bool} {r s : Regex α} {l : List α} {m : Match α}

@[simp] theorem mem_results_empty : m ∈ (empty : Regex α).results l ↔ m = .nil l := by
  rw [results_empty, List.mem_singleton]

theorem mem_results_char :
    m ∈ (char p).results l ↔ ∃ c l', l = c :: l' ∧ p c = true ∧ m = ⟨[c], [], l'⟩ := by
  cases l with
  | nil => simp [results_char_nil]
  | cons c l => simp [results_char_cons]

theorem mem_results_seq :
    m ∈ (seq r s).results l ↔ ∃ m₁ ∈ r.results l, ∃ m₂ ∈ s.results m₁.rest, m₁.append m₂ = m := by
  simp only [results_seq, List.mem_flatMap, List.mem_map]

theorem mem_results_alt :
    m ∈ (alt r s).results l ↔ m ∈ r.results l ∨ m ∈ s.results l := by
  rw [results_alt, List.mem_append]

theorem mem_results_group :
    m ∈ (group r).results l ↔
      ∃ m₁ ∈ r.results l, { m₁ with groups := m₁.taken :: m₁.groups } = m := by
  rw [results_group, List.mem_map]

theorem mem_results_many (h : m ∈ (many p).results l) :
    l = m.taken ++ m.rest ∧ m.groups = [] ∧ ∀ c ∈ m.taken, p c = true := by
  rw [results_many] at h
  induction l generalizing m with
  | nil =>
      obtain rfl := List.mem_singleton.1 h
      simp [Match.nil]
  | cons c l ih =>
      rw [manyResults_cons] at h
      split at h
      · next hc =>
          rcases List.mem_append.1 h with h | h
          · obtain ⟨m₁, hm₁, rfl⟩ := List.mem_map.1 h
            obtain ⟨hl, hgroups, hp⟩ := ih hm₁
            refine ⟨by simp [Match.cons, ← hl], hgroups, fun d hd => ?_⟩
            rcases List.mem_cons.1 hd with rfl | hd
            · exact hc
            · exact hp d hd
          · obtain rfl := List.mem_singleton.1 h
            simp [Match.nil]
      · obtain rfl := List.mem_singleton.1 h
        simp [Match.nil]

theorem mem_results_plus (h : m ∈ (plus p).results l) :
    l = m.taken ++ m.rest ∧ m.groups = [] ∧ m.taken ≠ [] ∧ ∀ c ∈ m.taken, p c = true := by
  obtain ⟨m₁, hm₁, m₂, hm₂, rfl⟩ := mem_results_seq.1 h
  obtain ⟨c, l', rfl, hc, rfl⟩ := mem_results_char.1 hm₁
  obtain ⟨hl, hgroups, hp⟩ := mem_results_many hm₂
  refine ⟨by simpa [Match.append] using hl, hgroups, by simp [Match.append], ?_⟩
  simpa [Match.append, hc] using hp

theorem mem_results_lits [DecidableEq α] {t : List α} (h : m ∈ (lits t).results l) :
    m.taken = t ∧ m.groups = [] := by
  induction t generalizing l m with
  | nil =>
      obtain rfl := mem_results_empty.1 h
      exact ⟨rfl, rfl⟩
  | cons c t ih =>
      obtain ⟨m₁, hm₁, m₂, hm₂, rfl⟩ := mem_results_seq.1 h
      obtain ⟨d, l', -, hd, rfl⟩ := mem_results_char.1 hm₁
      obtain rfl : d = c := of_decide_eq_true hd
      obtain ⟨htaken, hgroups⟩ := ih hm₂
      simp [Match.append, htaken, hgroups]

theorem mem_results_times {k : ℕ} (h : m ∈ (times p k).results l) :
    m.taken.length = k ∧ m.groups = [] ∧ ∀ c ∈ m.taken, p c = true := by
  induction k generalizing l m with
  | zero =>
      obtain rfl := mem_results_empty.1 h
      exact ⟨rfl, rfl, List.forall_mem_nil _⟩
  | succ k ih =>
      obtain ⟨m₁, hm₁, m₂, hm₂, rfl⟩ := mem_results_seq.1 h
      obtain ⟨d, l', -, hd, rfl⟩ := mem_results_char.1 hm₁
      obtain ⟨hlength, hgroups, hp⟩ := ih hm₂
      simpa [Match.append, hlength, hgroups, hd] using hp

/-- **A match is a prefix of the text.** -/
theorem append_of_mem_results (h : m ∈ r.results l) : l = m.taken ++ m.rest := by
  induction r generalizing l m with
  | empty =>
      obtain rfl := mem_results_empty.1 h
      rfl
  | char p =>
      obtain ⟨c, l', rfl, -, rfl⟩ := mem_results_char.1 h
      rfl
  | many p => exact (mem_results_many h).1
  | seq r s ihr ihs =>
      obtain ⟨m₁, hm₁, m₂, hm₂, rfl⟩ := mem_results_seq.1 h
      rw [ihr hm₁, ihs hm₂]
      simp [Match.append]
  | alt r s ihr ihs =>
      rcases mem_results_alt.1 h with h | h
      · exact ihr h
      · exact ihs h
  | group r ih =>
      obtain ⟨m₁, hm₁, rfl⟩ := mem_results_group.1 h
      have hl := ih hm₁
      exact hl

end Membership

/-! ### Greedy matching -/

section First

variable {p : α → Bool} {r s : Regex α} {l : List α} {m m₁ m₂ : Match α}

theorem first_char {c : α} (hc : p c = true) :
    (char p).first (c :: l) = some ⟨[c], [], l⟩ := by
  rw [first_eq, results_char_cons, if_pos hc, List.head?_cons]

theorem first_lit [DecidableEq α] (c : α) : (lit c).first (c :: l) = some ⟨[c], [], l⟩ :=
  first_char (decide_eq_true rfl)

/-- **A sequence** takes what its first part takes, if its second part can go on from there. -/
theorem first_seq (h₁ : r.first l = some m₁) (h₂ : s.first m₁.rest = some m₂) :
    (seq r s).first l = some (m₁.append m₂) := by
  obtain ⟨ms₁, hr⟩ := List.head?_eq_some_iff.1 h₁
  obtain ⟨ms₂, hs⟩ := List.head?_eq_some_iff.1 h₂
  rw [first_eq, results_seq, hr, List.flatMap_cons, hs]
  rfl

theorem first_alt_left (h : r.first l = some m) : (alt r s).first l = some m := by
  rw [first_eq, results_alt, List.head?_append, ← first_eq, h, Option.some_or]

theorem first_alt_right (h : r.results l = []) : (alt r s).first l = s.first l := by
  rw [first_eq, results_alt, h, List.nil_append, first_eq]

theorem first_group (h : r.first l = some m) :
    (group r).first l = some { m with groups := m.taken :: m.groups } := by
  rw [first_eq, results_group, List.head?_map, ← first_eq, h, Option.map_some]

theorem first_empty : (empty : Regex α).first l = some (.nil l) := rfl

theorem first_lits [DecidableEq α] (t : List α) : (lits t).first (t ++ l) = some ⟨t, [], l⟩ := by
  induction t with
  | nil => exact first_empty
  | cons c t ih => exact first_seq (first_lit c) ih

theorem first_times {t : List α} (ht : ∀ c ∈ t, p c = true) :
    (times p t.length).first (t ++ l) = some ⟨t, [], l⟩ := by
  induction t with
  | nil => exact first_empty
  | cons c t ih =>
      rw [List.forall_mem_cons] at ht
      exact first_seq (first_char ht.1) (ih ht.2)

/-- Nothing is found where there is no match. -/
theorem first_eq_none (h : ∀ m, m ∉ r.results l) : r.first l = none := by
  rw [first_eq, List.head?_eq_none_iff]
  exact List.eq_nil_iff_forall_not_mem.2 h

/-- No character of the class stands at the start of the text. -/
def Stops (p : α → Bool) (l : List α) : Prop := ∀ c ∈ l.head?, p c = false

@[simp] theorem stops_nil : Stops p ([] : List α) := by
  intro c hc
  cases hc

@[simp] theorem stops_cons {c : α} : Stops p (c :: l) ↔ p c = false := by
  simp [Stops]

theorem stops_dropWhile (p : α → Bool) (l : List α) : Stops p (l.dropWhile p) := by
  intro c hc
  have hnot := List.head?_dropWhile_not p l
  rw [Option.mem_def.1 hc] at hnot
  exact hnot

/-- A run ends where its class ends. -/
theorem takeWhile_append_stops {x : List α} (hx : ∀ c ∈ x, p c = true) (hl : Stops p l) :
    (x ++ l).takeWhile p = x := by
  rw [List.takeWhile_append_of_pos hx]
  cases l with
  | nil => rw [List.takeWhile_nil, List.append_nil]
  | cons c l =>
      rw [List.takeWhile_cons_of_neg (by simp [stops_cons.1 hl]), List.append_nil]

theorem eq_of_stops {x y l' : List α} (hx : ∀ c ∈ x, p c = true) (hy : ∀ c ∈ y, p c = true)
    (hl : Stops p l) (hl' : Stops p l') (h : x ++ l = y ++ l') : x = y := by
  rw [← takeWhile_append_stops hx hl, h, takeWhile_append_stops hy hl']

/-- **A run** is taken as far as it goes. -/
theorem first_many {t : List α} (ht : ∀ c ∈ t, p c = true) (hl : Stops p l) :
    (many p).first (t ++ l) = some ⟨t, [], l⟩ := by
  rw [first_eq, results_many]
  induction t with
  | nil =>
      cases l with
      | nil => rfl
      | cons c l =>
          have hc : ¬ p c = true := by rw [stops_cons.1 hl]; exact Bool.false_ne_true
          rw [List.nil_append, manyResults_cons, if_neg hc]
          rfl
  | cons c t ih =>
      rw [List.forall_mem_cons] at ht
      rw [List.cons_append, manyResults_cons, if_pos ht.1, List.head?_append, List.head?_map,
        ih ht.2]
      rfl

theorem first_plus {t : List α} (ht : ∀ c ∈ t, p c = true) (hne : t ≠ []) (hl : Stops p l) :
    (plus p).first (t ++ l) = some ⟨t, [], l⟩ := by
  cases t with
  | nil => exact absurd rfl hne
  | cons c t =>
      rw [List.forall_mem_cons] at ht
      exact first_seq (first_char ht.1) (first_many ht.2 hl)

end First

/-! ### Scanning a text -/

section Scan

variable {r : Regex α} {l : List α} {m : Match α}

/-- The scan of a text of which the first `n` characters belong to the match before: what it does
not match, character by character, and the matches.  The expression does not match the empty
text. -/
def scan (r : Regex α) : ℕ → List α → List (α ⊕ Match α)
  | _, [] => []
  | n + 1, _ :: l => r.scan n l
  | 0, c :: l =>
      match r.first (c :: l) with
      | some m => .inr m :: r.scan (m.taken.length - 1) l
      | none => .inl c :: r.scan 0 l

theorem scan_succ (n : ℕ) (c : α) (l : List α) : r.scan (n + 1) (c :: l) = r.scan n l := rfl

theorem scan_of_none {c : α} (h : r.first (c :: l) = none) :
    r.scan 0 (c :: l) = .inl c :: r.scan 0 l := by
  rw [scan, h]

theorem scan_of_first {c : α} (h : r.first (c :: l) = some m) :
    r.scan 0 (c :: l) = .inr m :: r.scan (m.taken.length - 1) l := by
  rw [scan, h]

/-- The leftmost matches that do not overlap. -/
def findall (r : Regex α) (l : List α) : List (Match α) := (r.scan 0 l).filterMap Sum.getRight?

theorem findall_eq (r : Regex α) (l : List α) :
    r.findall l = (r.scan 0 l).filterMap Sum.getRight? := rfl

@[simp] theorem findall_nil : r.findall ([] : List α) = [] := rfl

theorem scan_append (t : List α) : r.scan t.length (t ++ l) = r.scan 0 l := by
  induction t with
  | nil => rfl
  | cons c t ih => rw [List.length_cons, List.cons_append, scan_succ, ih]

/-- The scan from the end of a match on. -/
theorem scan_of_first_append (h : r.first l = some m) (hne : m.taken ≠ []) :
    r.scan 0 l = .inr m :: r.scan 0 m.rest := by
  have hl := append_of_mem_results (mem_results_of_first h)
  cases ht : m.taken with
  | nil => exact absurd ht hne
  | cons c t =>
      rw [ht, List.cons_append] at hl
      rw [hl] at h ⊢
      rw [scan_of_first h, ht, List.length_cons, Nat.add_sub_cancel, scan_append]

theorem findall_of_none {c : α} (h : r.first (c :: l) = none) :
    r.findall (c :: l) = r.findall l := by
  rw [findall_eq, scan_of_none h, findall_eq]
  rfl

theorem findall_of_first (h : r.first l = some m) (hne : m.taken ≠ []) :
    r.findall l = m :: r.findall m.rest := by
  rw [findall_eq, scan_of_first_append h hne]
  rfl

/-- **Text in which no match begins** is passed over. -/
theorem scan_of_forall_none {t : List α}
    (h : ∀ s, s ≠ [] → s <:+ t → r.first (s ++ l) = none) :
    r.scan 0 (t ++ l) = t.map .inl ++ r.scan 0 l := by
  induction t with
  | nil => rfl
  | cons c t ih =>
      have hc := h (c :: t) (List.cons_ne_nil c t) (List.suffix_refl _)
      have hrest := ih fun s hne hs => h s hne (hs.trans (List.suffix_cons c t))
      rw [List.cons_append] at hc ⊢
      rw [scan_of_none hc, hrest]
      rfl

/-- A match that the scan finds is the match taken at some position. -/
theorem first_of_mem_scan {n : ℕ} (h : .inr m ∈ r.scan n l) :
    ∃ l', l' <:+ l ∧ r.first l' = some m := by
  induction l generalizing n with
  | nil => cases n <;> simp [scan] at h
  | cons c l ih =>
      have htail : ∀ {n : ℕ}, .inr m ∈ r.scan n l → ∃ l', l' <:+ c :: l ∧ r.first l' = some m := by
        intro n hn
        obtain ⟨l', hl', hfirst⟩ := ih hn
        exact ⟨l', hl'.trans (List.suffix_cons c l), hfirst⟩
      cases n with
      | succ n => exact htail h
      | zero =>
          cases hfirst : r.first (c :: l) with
          | none =>
              rw [scan_of_none hfirst] at h
              exact htail ((List.mem_cons.1 h).resolve_left Sum.inr_ne_inl)
          | some m' =>
              rw [scan_of_first hfirst] at h
              rcases List.mem_cons.1 h with h | h
              · exact ⟨c :: l, List.suffix_refl _, Sum.inr.inj h ▸ hfirst⟩
              · exact htail h

theorem first_of_mem_findall (h : m ∈ r.findall l) : ∃ l', l' <:+ l ∧ r.first l' = some m := by
  obtain ⟨x, hx, hright⟩ := List.mem_filterMap.1 h
  rw [Sum.getRight?_eq_some_iff] at hright
  exact first_of_mem_scan (hright ▸ hx)

/-- **Text from which no match runs on**: a scan of it finds matches in it, and goes on behind it as
if it had begun there. -/
theorem findall_append {o b : List α}
    (h : ∀ s m, s <:+ o → r.first (s ++ b) = some m → s ≠ [] → m.taken ≠ [] ∧ m.taken <+: s) :
    ∃ ms, r.findall (o ++ b) = ms ++ r.findall b ∧
      ∀ m ∈ ms, ∃ s, s <:+ o ∧ s ≠ [] ∧ r.first (s ++ b) = some m := by
  induction hlen : o.length using Nat.strong_induction_on generalizing o with
  | h len ih =>
      cases o with
      | nil => exact ⟨[], rfl, by simp⟩
      | cons c o =>
          cases hfirst : r.first (c :: (o ++ b)) with
          | none =>
              obtain ⟨ms, hms, hfrom⟩ := ih o.length (by simp [← hlen])
                (fun s m hs => h s m (hs.trans (List.suffix_cons c o))) rfl
              refine ⟨ms, by rw [List.cons_append, findall_of_none hfirst, hms], fun m hm => ?_⟩
              obtain ⟨s, hs, hrest⟩ := hfrom m hm
              exact ⟨s, hs.trans (List.suffix_cons c o), hrest⟩
          | some m =>
              obtain ⟨hne, o', ho'⟩ :=
                h (c :: o) m (List.suffix_refl _) hfirst (List.cons_ne_nil c o)
              have htext : c :: o ++ b = m.taken ++ m.rest :=
                append_of_mem_results (mem_results_of_first hfirst)
              have hrest : m.rest = o' ++ b := by
                rw [← ho', List.append_assoc] at htext
                exact (List.append_cancel_left htext).symm
              have hsuffix : o' <:+ c :: o := ho' ▸ List.suffix_append _ o'
              have hlt : o'.length < len := by
                have hpos := List.length_pos_of_ne_nil hne
                rw [← hlen, ← ho', List.length_append]
                omega
              obtain ⟨ms, hms, hfrom⟩ := ih o'.length hlt
                (fun s m hs => h s m (hs.trans hsuffix)) rfl
              refine ⟨m :: ms, ?_, List.forall_mem_cons.2 ⟨?_, fun m hm => ?_⟩⟩
              · rw [List.cons_append, findall_of_first hfirst hne, hrest, hms, List.cons_append]
              · exact ⟨c :: o, List.suffix_refl _, List.cons_ne_nil c o, hfirst⟩
              · obtain ⟨s, hs, hrest⟩ := hfrom m hm
                exact ⟨s, hs.trans hsuffix, hrest⟩

/-- What becomes of a piece of the scan. -/
def subPiece (f : Match α → Option (List α)) : α ⊕ Match α → Option (List α)
  | .inl c => some [c]
  | .inr m => f m

/-- **The text with its leftmost matches replaced**, or `none` if a replacement fails. -/
def sub (r : Regex α) (f : Match α → Option (List α)) (l : List α) : Option (List α) :=
  ((r.scan 0 l).mapM (subPiece f)).map List.flatten

variable {f : Match α → Option (List α)}

theorem sub_nil : r.sub f [] = some [] := rfl

theorem map_flatten_cons {x : α ⊕ Match α} {a t : List α} {xs : List (α ⊕ Match α)}
    (hx : subPiece f x = some a) (hxs : (xs.mapM (subPiece f)).map List.flatten = some t) :
    ((x :: xs).mapM (subPiece f)).map List.flatten = some (a ++ t) := by
  obtain ⟨ts, hts, rfl⟩ := Option.map_eq_some_iff.1 hxs
  rw [List.mapM_cons, hx, hts]
  rfl

theorem sub_of_first {a t : List α} (h : r.first l = some m) (hne : m.taken ≠ [])
    (ha : f m = some a) (ht : r.sub f m.rest = some t) : r.sub f l = some (a ++ t) := by
  rw [sub, scan_of_first_append h hne]
  exact map_flatten_cons ha ht

theorem sub_of_forall_none {s t : List α}
    (h : ∀ s', s' ≠ [] → s' <:+ s → r.first (s' ++ l) = none) (ht : r.sub f l = some t) :
    r.sub f (s ++ l) = some (s ++ t) := by
  rw [sub, scan_of_forall_none h]
  clear h
  induction s with
  | nil => exact ht
  | cons c s ih => exact map_flatten_cons (a := [c]) rfl ih

end Scan

/-! ### Searching a text -/

section Search

variable {r : Regex α} {l : List α} {m : Match α}

/-- The leftmost match. -/
def search (r : Regex α) : List α → Option (Match α)
  | [] => r.first []
  | c :: l => (r.first (c :: l)).or (r.search l)

theorem search_of_first (h : r.first l = some m) : r.search l = some m := by
  cases l with
  | nil => exact h
  | cons c l => rw [search, h, Option.some_or]

/-- **Text in which no match begins** is passed over. -/
theorem search_of_forall_none {t : List α}
    (h : ∀ s, s ≠ [] → s <:+ t → r.first (s ++ l) = none) : r.search (t ++ l) = r.search l := by
  induction t with
  | nil => rfl
  | cons c t ih =>
      have hc := h (c :: t) (List.cons_ne_nil c t) (List.suffix_refl _)
      rw [List.cons_append] at hc ⊢
      rw [search, hc, Option.none_or]
      exact ih fun s hne hs => h s hne (hs.trans (List.suffix_cons c t))

end Search

end Regex
