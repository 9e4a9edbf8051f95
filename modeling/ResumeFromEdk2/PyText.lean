/-
**Text and dictionaries as Python has them.**

Reading a text stream line by line, the white space of `str.strip` and of the class `\s`, and
dictionaries that keep the order in which their keys were first set.

Main definitions:

* `PyText.lines` — the lines that the iteration over `sys.stdin` gives;
* `PyText.isSpace`, `PyText.strip` — white space;
* `PyText.Dict`, `PyText.Dict.set`, `PyText.Dict.get?`, `PyText.Dict.setAll` — dictionaries.

Main results:

* `PyText.lines_flatMap` — what was written line by line is read line by line;
* `PyText.exists_of_mem_lines`, `PyText.exists_mem_lines` — where the lines are;
* `PyText.lines_append` — a text that ends its last line, and one after it, are read one after the
  other;
* `PyText.strip_append` — white space at the end goes, the text before it stays;
* `PyText.Dict.get?_set` — what a dictionary holds after an assignment;
* `PyText.Dict.get?_setAll_eq` — and after many: the last one to a key counts;
* `PyText.Dict.get?_setAll`, `PyText.Dict.get?_setAll_of_not_mem` — the same where those to one key
  agree, or where there is none.
-/

import Mathlib.Data.List.DropRight

set_option relaxedAutoImplicit false
set_option autoImplicit false

namespace PyText

abbrev Text := List Char

/-! ### Lines -/

/-- **The lines that the iteration over `sys.stdin` gives**, each with its newline.  On Linux they
end at `'\n'` only, and a `'\r'` is a character of the line. -/
def lines : Text → List Text
  | [] => []
  | c :: l =>
      if c = '\n' then ['\n'] :: lines l
      else
        match lines l with
        | [] => [[c]]
        | t :: ts => (c :: t) :: ts

theorem lines_line {t : Text} (ht : '\n' ∉ t) (l : Text) :
    lines (t ++ '\n' :: l) = (t ++ ['\n']) :: lines l := by
  induction t with
  | nil => rfl
  | cons c t ih =>
      rw [List.mem_cons, not_or] at ht
      rw [List.cons_append, lines, if_neg (Ne.symm ht.1), ih ht.2]
      rfl

/-- What was written line by line is read line by line. -/
theorem lines_flatMap {ts : List Text} (h : ∀ t ∈ ts, '\n' ∉ t) :
    lines (ts.flatMap fun t => t ++ ['\n']) = ts.map fun t => t ++ ['\n'] := by
  induction ts with
  | nil => rfl
  | cons t ts ih =>
      rw [List.forall_mem_cons] at h
      rw [List.flatMap_cons, List.append_assoc, List.singleton_append, lines_line h.1, ih h.2,
        List.map_cons]

theorem eq_nil_of_lines {t : Text} (h : lines t = []) : t = [] := by
  cases t with
  | nil => rfl
  | cons c t =>
      rw [lines] at h
      split at h
      · cases h
      · split at h <;> cases h

/-- The first line, and what is left after it; only the last line may lack its newline. -/
theorem lines_eq_cons {t l : Text} {ls : List Text} (h : lines t = l :: ls) :
    ∃ s, t = l ++ s ∧ lines s = ls ∧ (s = [] ∨ ∃ l', l = l' ++ ['\n']) := by
  induction t generalizing l ls with
  | nil => cases h
  | cons c t ih =>
      rw [lines] at h
      split at h
      · next hc =>
          obtain ⟨rfl, rfl⟩ := List.cons.inj h
          exact ⟨t, by rw [hc]; rfl, rfl, .inr ⟨[], rfl⟩⟩
      · cases hlines : lines t with
        | nil =>
            rw [hlines] at h
            obtain ⟨rfl, rfl⟩ := List.cons.inj h
            exact ⟨[], by rw [eq_nil_of_lines hlines]; rfl, rfl, .inl rfl⟩
        | cons l₁ ls₁ =>
            rw [hlines] at h
            obtain ⟨rfl, rfl⟩ := List.cons.inj h
            obtain ⟨s, rfl, hs, hend⟩ := ih hlines
            refine ⟨s, rfl, hs, hend.imp id ?_⟩
            rintro ⟨l', rfl⟩
            exact ⟨c :: l', rfl⟩

/-- A line, and what is read before and after it. -/
theorem exists_of_mem_lines {t l : Text} (h : l ∈ lines t) :
    ∃ p s, t = p ++ (l ++ s) ∧ (s = [] ∨ ∃ l', l = l' ++ ['\n']) := by
  induction hls : lines t generalizing t with
  | nil => rw [hls] at h; cases h
  | cons l₁ ls ih =>
      obtain ⟨s, rfl, hs, hend⟩ := lines_eq_cons hls
      rw [hls] at h
      rcases List.mem_cons.1 h with rfl | h
      · exact ⟨[], s, rfl, hend⟩
      · obtain ⟨p, s', rfl, hend'⟩ := ih (t := s) (hs.symm ▸ h) hs
        exact ⟨l₁ ++ p, s', by rw [List.append_assoc], hend'⟩

/-- Text without newlines at the start stands in the first line. -/
theorem lines_of_not_mem {t : Text} (ht : '\n' ∉ t) (hne : t ≠ []) (s : Text) :
    ∃ s₁ ls, lines (t ++ s) = (t ++ s₁) :: ls := by
  induction t with
  | nil => exact absurd rfl hne
  | cons c t ih =>
      rw [List.mem_cons, not_or] at ht
      cases t with
      | nil =>
          rw [List.cons_append, lines, if_neg (Ne.symm ht.1)]
          cases lines ([] ++ s) with
          | nil => exact ⟨[], [], rfl⟩
          | cons l ls => exact ⟨l, ls, rfl⟩
      | cons d t =>
          obtain ⟨s₁, ls, hline⟩ := ih ht.2 (List.cons_ne_nil d t)
          rw [List.cons_append, lines, if_neg (Ne.symm ht.1), hline]
          exact ⟨s₁, ls, rfl⟩

/-- Text without newlines stands in one line. -/
theorem exists_mem_lines {p w s : Text} (hw : '\n' ∉ w) (hne : w ≠ []) :
    ∃ p₂ s₁, p₂ <:+ p ∧ p₂ ++ (w ++ s₁) ∈ lines (p ++ (w ++ s)) := by
  induction hlen : p.length using Nat.strong_induction_on generalizing p with
  | _ len ih =>
      by_cases hmem : '\n' ∈ p
      · -- the piece stands after the first newline of `p`
        obtain ⟨a, b, rfl, ha⟩ := List.eq_append_cons_of_mem hmem
        have hlt : b.length < len := by
          rw [← hlen, List.length_append, List.length_cons]
          omega
        obtain ⟨p₂, s₁, hp₂, hline⟩ := ih b.length hlt rfl
        refine ⟨p₂, s₁, hp₂.trans ((List.suffix_cons _ _).trans (List.suffix_append _ _)), ?_⟩
        rw [List.append_assoc, List.cons_append, lines_line ha]
        exact List.mem_cons_of_mem _ hline
      · obtain ⟨s₁, ls, hline⟩ := lines_of_not_mem (t := p ++ w)
          (by simp [hmem, hw]) (by simp [hne]) s
        refine ⟨p, s₁, List.suffix_refl p, ?_⟩
        rw [← List.append_assoc, ← List.append_assoc, hline]
        exact List.mem_cons_self

/-! ### Texts one after the other -/

/-- The text is empty or ends its last line. -/
def EndsLine (t : Text) : Prop := ∀ c ∈ t.getLast?, c = '\n'

theorem EndsLine.append {s t : Text} (hs : EndsLine s) (ht : EndsLine t) : EndsLine (s ++ t) := by
  intro c hc
  rw [List.getLast?_append] at hc
  cases hlast : t.getLast? with
  | none =>
      rw [hlast, Option.none_or] at hc
      exact hs c hc
  | some d =>
      rw [hlast, Option.some_or] at hc
      exact ht c (hlast.trans hc)

theorem EndsLine.of_append {s t : Text} (h : EndsLine (s ++ t)) : EndsLine t := by
  intro c hc
  refine h c ?_
  rw [List.getLast?_append, Option.mem_def.1 hc]
  rfl

theorem lines_append_newline (p w : Text) :
    lines (p ++ '\n' :: w) = lines (p ++ ['\n']) ++ lines w := by
  induction p with
  | nil => rfl
  | cons c p ih =>
      rw [List.cons_append, List.cons_append, lines, lines, ih]
      split
      · rfl
      · cases hline : lines (p ++ ['\n']) with
        | nil => exact absurd (eq_nil_of_lines hline) (by simp)
        | cons l ls => rfl

/-- **The lines of two texts**, of which the first ends its last line. -/
theorem lines_append {s : Text} (hs : EndsLine s) (t : Text) :
    lines (s ++ t) = lines s ++ lines t := by
  rcases List.eq_nil_or_concat' s with rfl | ⟨p, c, rfl⟩
  · rfl
  · obtain rfl : c = '\n' := hs c (by rw [List.getLast?_concat]; rfl)
    rw [List.append_assoc, List.singleton_append, lines_append_newline]

/-! ### White space -/

/-- The characters that `str.isspace` accepts. -/
def isSpace (c : Char) : Bool :=
  (9 ≤ c.toNat && c.toNat ≤ 13) || (28 ≤ c.toNat && c.toNat ≤ 32) || c.toNat = 0x85 ||
    c.toNat = 0xa0 || c.toNat = 0x1680 || (0x2000 ≤ c.toNat && c.toNat ≤ 0x200a) ||
    c.toNat = 0x2028 || c.toNat = 0x2029 || c.toNat = 0x202f || c.toNat = 0x205f ||
    c.toNat = 0x3000

def strip (t : Text) : Text := (t.dropWhile isSpace).rdropWhile isSpace

/-- White space at the end goes, the text before it stays. -/
theorem strip_append {t sp : Text} (ht : ∀ c ∈ t, isSpace c = false)
    (hsp : ∀ c ∈ sp, isSpace c = true) : strip (t ++ sp) = t := by
  cases t with
  | nil =>
      rw [List.nil_append, strip, List.dropWhile_eq_nil_iff.2 hsp, List.rdropWhile_nil]
  | cons c t =>
      have hc : ¬ isSpace c = true := by simp [ht c List.mem_cons_self]
      rw [strip, List.cons_append, List.dropWhile_cons_of_neg hc, ← List.cons_append,
        List.rdropWhile, List.reverse_append, List.dropWhile_append_of_pos (by simpa using hsp)]
      rw [← List.rdropWhile, List.rdropWhile_eq_self_iff]
      intro hne
      simp [ht _ (List.getLast_mem hne)]

/-! ### Dictionaries -/

/-- A dictionary: its keys, in the order in which they were first set, with their values. -/
abbrev Dict (K V : Type*) := List (K × V)

namespace Dict

variable {K V : Type*} [DecidableEq K]

/-- `d[k] = v` -/
def set : Dict K V → K → V → Dict K V
  | [], k, v => [(k, v)]
  | (k', v') :: d, k, v => if k' = k then (k, v) :: d else (k', v') :: set d k v

def get? : Dict K V → K → Option V
  | [], _ => none
  | (k', v') :: d, k => if k' = k then some v' else get? d k

/-- Assignments one after the other. -/
def setAll (d : Dict K V) (as : List (K × V)) : Dict K V := as.foldl (fun d a => d.set a.1 a.2) d

@[simp] theorem setAll_cons (d : Dict K V) (a : K × V) (as : List (K × V)) :
    d.setAll (a :: as) = (d.set a.1 a.2).setAll as := rfl

theorem get?_set (d : Dict K V) (k k' : K) (v : V) :
    (d.set k v).get? k' = if k' = k then some v else d.get? k' := by
  induction d with
  | nil =>
      rw [set, get?, get?]
      simp only [get?, eq_comm]
  | cons a d ih =>
      obtain ⟨k₁, v₁⟩ := a
      rw [set]
      rcases eq_or_ne k₁ k with rfl | hk
      · rw [if_pos rfl, get?, get?]
        rcases eq_or_ne k₁ k' with rfl | hk'
        · simp
        · simp [hk', hk'.symm]
      · rw [if_neg hk, get?, get?, ih]
        rcases eq_or_ne k₁ k' with rfl | hk'
        · simp [hk]
        · simp [hk']

theorem get?_setAll_of_not_mem (d : Dict K V) {as : List (K × V)} {k : K}
    (h : ∀ a ∈ as, a.1 ≠ k) : (d.setAll as).get? k = d.get? k := by
  induction as generalizing d with
  | nil => rfl
  | cons a as ih =>
      rw [List.forall_mem_cons] at h
      rw [setAll_cons, ih _ h.2, get?_set, if_neg h.1.symm]

/-- **A key holds the value of the last assignment to it**, or what it held before. -/
theorem get?_setAll_eq (d : Dict K V) (as : List (K × V)) (k : K) :
    (d.setAll as).get? k =
      ((as.filter fun a => a.1 = k).getLast?.map Prod.snd).or (d.get? k) := by
  induction as generalizing d with
  | nil => rfl
  | cons a as ih =>
      rw [setAll_cons, ih, get?_set]
      by_cases hk : k = a.1
      · rw [if_pos hk, List.filter_cons_of_pos (by simp [hk]), List.getLast?_cons]
        cases (as.filter fun a => a.1 = k).getLast? <;> rfl
      · rw [if_neg hk, List.filter_cons_of_neg (by simpa [eq_comm] using hk)]

theorem mem_set {d : Dict K V} {k : K} {v : V} {x : K × V} (hx : x ∈ d.set k v) :
    x = (k, v) ∨ x ∈ d := by
  induction d with
  | nil => exact .inl (List.mem_singleton.1 hx)
  | cons a d ih =>
      rw [set] at hx
      split at hx
      · exact (List.mem_cons.1 hx).imp id (List.mem_cons_of_mem a)
      · rcases List.mem_cons.1 hx with rfl | hx
        · exact .inr List.mem_cons_self
        · exact (ih hx).imp id (List.mem_cons_of_mem a)

/-- What a dictionary holds was assigned, or was there before. -/
theorem mem_setAll {d : Dict K V} {as : List (K × V)} {x : K × V} (hx : x ∈ d.setAll as) :
    x ∈ as ∨ x ∈ d := by
  induction as generalizing d with
  | nil => exact .inr hx
  | cons a as ih =>
      rcases ih hx with hx | hx
      · exact .inl (List.mem_cons_of_mem a hx)
      · rcases mem_set hx with rfl | hx
        · exact .inl List.mem_cons_self
        · exact .inr hx

theorem mem_of_get? {d : Dict K V} {k : K} {v : V} (h : d.get? k = some v) : (k, v) ∈ d := by
  induction d with
  | nil => cases h
  | cons a d ih =>
      rw [get?] at h
      split at h
      · next hk =>
          obtain rfl := Option.some.inj h
          exact hk ▸ List.mem_cons_self
      · exact List.mem_cons_of_mem a (ih h)

/-- A key holds the value that every assignment to it has. -/
theorem get?_setAll (d : Dict K V) {as : List (K × V)} {k : K} {v : V}
    (h : ∀ a ∈ as, a.1 = k → a.2 = v) (hk : (k, v) ∈ as) : (d.setAll as).get? k = some v := by
  induction as generalizing d with
  | nil => cases hk
  | cons a as ih =>
      rw [List.forall_mem_cons] at h
      rw [setAll_cons]
      by_cases hlater : (k, v) ∈ as
      · exact ih _ h.2 hlater
      · obtain rfl : (k, v) = a := (List.mem_cons.1 hk).resolve_right hlater
        rw [get?_setAll_of_not_mem, get?_set, if_pos rfl]
        intro a ha hak
        exact hlater (by rwa [← h.2 a ha hak, ← hak])

end Dict

end PyText
