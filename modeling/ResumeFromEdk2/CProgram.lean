/-
**Programs of assignments.**

A sequence of assignments to the fields of a structure is the simplest program of C there is, and
still its text has a meaning only after several steps: lines that are continued are joined, comments
become blanks, what is left is cut into tokens and the tokens into statements, each right side is
evaluated in its own type, and the value is converted to the type of the field and stored at the
place that the structure gives it.  This module follows these steps, for a structure of any layout.

Main definitions:

* `CProgram.splice`, `CProgram.uncomment` — joining lines, and replacing comments;
* `CProgram.program` — the assignments in a text;
* `CProgram.Layout` — where the fields of a structure are; they do not overlap;
* `CProgram.exec` — **running assignments on the bytes of a structure**.

Main results:

* `CProgram.uncomment_comment`, `CProgram.uncomment_plain` — comments end where they should;
* `CProgram.statements_append` — a text is read statement by statement;
* `CProgram.exists_exec`, `CProgram.read_of_exec`, `CProgram.byte_of_exec` — **what a run leaves in
  the fields it assigns to**, and that it leaves everything else alone.
-/

import ResumeFromEdk2.ByteImage
import ResumeFromEdk2.CInteger

set_option relaxedAutoImplicit false
set_option autoImplicit false

namespace CProgram

open ByteImage CInteger

/-! ### From text to tokens -/

/-- Lines that end in a backslash are joined with the next ones. -/
def splice : List Char → List Char
  | '\\' :: '\n' :: l => splice l
  | c :: l => c :: splice l
  | [] => []

/-- Characters that begin neither a comment nor a literal nor a directive. -/
def isPlain (c : Char) : Bool := c ∉ ['/', '\x22', '\x27', '\\', '#']

/-- Every comment becomes a blank; the flag tells whether the text begins in one.  Literals and
directives are not read. -/
def uncomment : Bool → List Char → Option (List Char)
  | false, [] => some []
  | true, [] => none
  | false, '/' :: '*' :: l => (uncomment true l).map (' ' :: ·)
  | true, '*' :: '/' :: l => uncomment false l
  | true, _ :: l => uncomment true l
  | false, c :: l => if isPlain c then (uncomment false l).map (c :: ·) else none

/-- A text without such a line end is left as it is. -/
theorem splice_of_not_infix {t : List Char} (h : ¬['\\', '\n'] <:+: t) : splice t = t := by
  fun_induction splice t with
  | case1 l ih => exact absurd (List.prefix_append ['\\', '\n'] l).isInfix h
  | case2 c l _ ih => rw [ih fun h' => h (h'.trans (List.suffix_cons c l).isInfix)]
  | case3 => rfl

/-- Text in which no comment begins stays. -/
theorem uncomment_plain {t : List Char} (ht : ∀ c ∈ t, isPlain c = true) (l : List Char) :
    uncomment false (t ++ l) = (uncomment false l).map (t ++ ·) := by
  induction t with
  | nil => simp
  | cons c t ih =>
      rw [List.forall_mem_cons] at ht
      have hslash : c ≠ '/' := by
        rintro rfl
        exact absurd ht.1 (by decide)
      rw [List.cons_append, uncomment, if_pos ht.1, ih ht.2, Option.map_map]
      · rfl
      · rintro l' rfl
        exact absurd rfl hslash

/-- **A comment ends at the first place that ends it.** -/
theorem uncomment_comment {t : List Char} (ht : ¬['*', '/'] <:+: t ++ ['*']) (l : List Char) :
    uncomment true (t ++ '*' :: '/' :: l) = uncomment false l := by
  induction t with
  | nil => rfl
  | cons c t ih =>
      have ht' : ¬['*', '/'] <:+: t ++ ['*'] := fun h =>
        ht (h.trans (List.suffix_cons c (t ++ ['*'])).isInfix)
      rw [List.cons_append, uncomment, ih ht']
      rintro l' rfl hl'
      -- the comment would end here
      cases t with
      | nil => exact absurd (List.cons.inj hl').1 (by decide)
      | cons d t =>
          obtain ⟨rfl, -⟩ := List.cons.inj hl'
          exact ht ⟨[], t ++ ['*'], rfl⟩

/-- A blank ends what stands before it. -/
theorem tokensFrom_append {b : Char} (hb : b = ' ' ∨ b = '\n') (cur t l : List Char) :
    tokensFrom cur (t ++ b :: l) = tokensFrom cur t ++ tokens l := by
  induction t generalizing cur with
  | nil =>
      have hword : isWord b = false := by
        rcases hb with rfl | rfl <;> rfl
      rw [List.nil_append, tokensFrom, tokensFrom, if_neg (hword ▸ Bool.false_ne_true), if_pos hb,
        List.append_nil]
      rfl
  | cons c t ih =>
      rw [List.cons_append, tokensFrom, tokensFrom]
      split
      · exact ih _
      · rw [ih, List.append_assoc, List.append_assoc, List.append_assoc]

/-! ### From tokens to statements -/

/-- A token. -/
abbrev Token := List Char

/-- An assignment: the name of a field, and an expression. -/
abbrev Statement := List Token × Expr

/-- The assignment that the tokens before a semicolon make. -/
def statement (ts : List Token) : Option Statement :=
  (readOperand id ((ts.dropWhile (· ≠ ['='])).drop 1)).map
    (Prod.mk (ts.takeWhile (· ≠ ['='])))

/-- The statements that tokens make, after those of an unfinished one. -/
def statements : List Token → List Token → Option (List Statement)
  | [], [] => some []
  | _ :: _, [] => none
  | cur, t :: ts =>
      if t = [';'] then do
        let s ← statement cur
        let ss ← statements [] ts
        return s :: ss
      else statements (cur ++ [t]) ts

/-- **The assignments in a text.** -/
def program (t : List Char) : Option (List Statement) := do
  let t ← uncomment false (splice t)
  statements [] (tokens t)

/-- An assignment is a name, `=` and an operand. -/
theorem statement_eq {lhs rhs : List Token} {e : Expr} (hlhs : ['='] ∉ lhs)
    (he : readOperand id rhs = some e) : statement (lhs ++ ['='] :: rhs) = some (lhs, e) := by
  have hne : ∀ t ∈ lhs, decide (t ≠ ['=']) = true := fun t ht =>
    decide_eq_true fun h => hlhs (h ▸ ht)
  have hstop : ∀ l : List Token, ((['='] :: l : List Token)).dropWhile (· ≠ ['=']) = ['='] :: l ∧
      ((['='] :: l : List Token)).takeWhile (· ≠ ['=']) = [] := fun _ => ⟨rfl, rfl⟩
  rw [statement, List.dropWhile_append_of_pos hne, List.takeWhile_append_of_pos hne, (hstop _).1,
    (hstop _).2, List.append_nil, List.drop_one, List.tail_cons, he, Option.map_some]

/-- **The first statement of a text.** -/
theorem statements_append {ts : List Token} (hts : [';'] ∉ ts) (cur l : List Token) :
    statements cur (ts ++ [';'] :: l) = (do
      let s ← statement (cur ++ ts)
      let ss ← statements [] l
      return s :: ss) := by
  induction ts generalizing cur with
  | nil => rw [List.nil_append, statements, if_pos rfl, List.append_nil]
  | cons t ts ih =>
      rw [List.mem_cons, not_or] at hts
      rw [List.cons_append, statements, if_neg (Ne.symm hts.1), ih hts.2, List.append_assoc]
      rfl

/-! ### Structures -/

/-- A field: where it begins, and how many bytes it has. -/
structure Field where
  offset : ℕ
  size : ℕ

/-- The field has the byte at `i`. -/
def Field.Has (f : Field) (i : ℕ) : Prop := f.offset ≤ i ∧ i < f.offset + f.size

instance (f : Field) (i : ℕ) : Decidable (f.Has i) := inferInstanceAs (Decidable (_ ∧ _))

/-- **The layout of a structure**: its fields lie in it, and no two of them overlap. -/
structure Layout where
  size : ℕ
  field : List Token → Option Field
  fits : ∀ {p f}, field p = some f → f.offset + f.size ≤ size
  apart : ∀ {p q f g}, p ≠ q → field p = some f → field q = some g → ∀ i, f.Has i → ¬g.Has i

/-- The structure of fields of `k` bytes each, one after the other. -/
def Layout.packed (names : List (List Token)) (k : ℕ) : Layout where
  size := k * names.length
  field p := if p ∈ names then some ⟨k * names.idxOf p, k⟩ else none
  fits := by
    intro p f h
    rw [Option.ite_none_right_eq_some, Option.some.injEq] at h
    obtain ⟨hp, rfl⟩ := h
    exact Nat.mul_le_mul_left k (List.idxOf_lt_length_of_mem hp)
  apart := by
    intro p q f g hpq hf hg i hi hi'
    rw [Option.ite_none_right_eq_some, Option.some.injEq] at hf hg
    obtain ⟨hp, rfl⟩ := hf
    obtain ⟨hq, rfl⟩ := hg
    refine hpq ((List.idxOf_inj hp).1 ?_)
    have hidx : ∀ j, Field.Has ⟨k * j, k⟩ i → i / k = j := fun j hj =>
      Nat.div_eq_of_lt_le (by rw [Nat.mul_comm]; exact hj.1)
        (by rw [Nat.add_mul, Nat.mul_comm, Nat.one_mul]; exact hj.2)
    rw [← hidx _ hi, ← hidx _ hi']

variable {L : Layout}

/-- The value of a field. -/
def Layout.read (L : Layout) (m : Image L.size) (p : List Token) : Option ℕ :=
  (L.field p).map fun f => m.number f.offset f.size

/-- Storing a value in a field, which has an unsigned type. -/
def Layout.assign (L : Layout) (m : Image L.size) (p : List Token) (v : ℤ) :
    Option (Image L.size) :=
  (L.field p).map fun f => m.setNumber f.offset f.size (v % 256 ^ f.size).toNat

/-- **Running assignments**: a field that does not exist, or an expression without a value, leaves
the program without a meaning. -/
def exec (L : Layout) : List Statement → Image L.size → Option (Image L.size)
  | [], m => some m
  | (p, e) :: ss, m => do
      let v ← e.eval
      let m ← L.assign m p v.val
      exec L ss m

/-- The bytes that an assignment leaves alone. -/
theorem byte_of_assign {m m' : Image L.size} {p : List Token} {v : ℤ}
    (h : L.assign m p v = some m') {i : ℕ} (hi : ∀ f, L.field p = some f → ¬f.Has i) :
    m'.byte i = m.byte i := by
  obtain ⟨f, hf, rfl⟩ := Option.map_eq_some_iff.1 h
  have hout : ¬(f.offset ≤ i ∧ i < f.offset + f.size) := hi f hf
  rw [Image.setNumber, Image.byte_overwrite m (L.fits hf), if_neg hout]

/-- The field that an assignment stores to. -/
theorem read_of_assign {m m' : Image L.size} {p : List Token} {v : ℤ}
    (h : L.assign m p v = some m') {f : Field} (hf : L.field p = some f) :
    L.read m' p = some (v % 256 ^ f.size).toNat := by
  rw [Layout.assign, hf, Option.map_some, Option.some.injEq] at h
  have hpos : (0 : ℤ) < 256 ^ f.size := by positivity
  have hlt : (v % 256 ^ f.size).toNat < 256 ^ f.size := by
    have hnonneg := Int.emod_nonneg v hpos.ne'
    have hmod := Int.emod_lt_of_pos v hpos
    rw [← Int.toNat_of_nonneg hnonneg] at hmod
    exact_mod_cast hmod
  rw [Layout.read, hf, Option.map_some, ← h, Image.number_setNumber m (L.fits hf),
    Nat.mod_eq_of_lt hlt]

/-- Fields with the same bytes have the same value. -/
theorem read_congr {m m' : Image L.size} {p : List Token}
    (h : ∀ f, L.field p = some f → ∀ i, f.Has i → m'.byte i = m.byte i) :
    L.read m' p = L.read m p := by
  cases hf : L.field p with
  | none => rw [Layout.read, Layout.read, hf, Option.map_none, Option.map_none]
  | some f =>
      rw [Layout.read, Layout.read, hf, Option.map_some, Option.map_some,
        Image.number_congr fun i hi hlt => h f hf i ⟨hi, hlt⟩]

theorem exec_cons {p : List Token} {e : Expr} {ss : List Statement} {m m' : Image L.size}
    (h : exec L ((p, e) :: ss) m = some m') :
    ∃ v m₁, e.eval = some v ∧ L.assign m p v.val = some m₁ ∧ exec L ss m₁ = some m' := by
  obtain ⟨v, hv, h⟩ := Option.bind_eq_some_iff.1 h
  obtain ⟨m₁, hm₁, h⟩ := Option.bind_eq_some_iff.1 h
  exact ⟨v, m₁, hv, hm₁, h⟩

/-- **A run has a meaning** when its fields exist and its expressions have values. -/
theorem exists_exec {ss : List Statement}
    (h : ∀ s ∈ ss, (∃ f, L.field s.1 = some f) ∧ ∃ v, s.2.eval = some v) (m : Image L.size) :
    ∃ m', exec L ss m = some m' := by
  induction ss generalizing m with
  | nil => exact ⟨m, rfl⟩
  | cons s ss ih =>
      obtain ⟨p, e⟩ := s
      rw [List.forall_mem_cons] at h
      obtain ⟨⟨⟨f, hf⟩, v, hv⟩, hss⟩ := h
      obtain ⟨m', hm'⟩ := ih hss (m.setNumber f.offset f.size (v.val % 256 ^ f.size).toNat)
      have hassign : L.assign m p v.val =
          some (m.setNumber f.offset f.size (v.val % 256 ^ f.size).toNat) :=
        congrArg (Option.map _) hf
      refine ⟨m', ?_⟩
      rw [exec, show e.eval = some v from hv, Option.bind_eq_bind, Option.bind_some, hassign]
      exact hm'

/-- **What a run leaves alone**: the bytes of all fields that it does not assign to, and those of no
field. -/
theorem byte_of_exec {ss : List Statement} {m m' : Image L.size} (h : exec L ss m = some m')
    {i : ℕ} (hi : ∀ s ∈ ss, ∀ f, L.field s.1 = some f → ¬f.Has i) : m'.byte i = m.byte i := by
  induction ss generalizing m with
  | nil => rw [Option.some.inj h]
  | cons s ss ih =>
      obtain ⟨p, e⟩ := s
      rw [List.forall_mem_cons] at hi
      obtain ⟨v, m₁, -, hassign, hrest⟩ := exec_cons h
      rw [ih hrest hi.2, byte_of_assign hassign hi.1]

theorem read_of_exec_of_not_mem {ss : List Statement} {m m' : Image L.size}
    (h : exec L ss m = some m') {p : List Token} (hp : ∀ s ∈ ss, s.1 ≠ p) :
    L.read m' p = L.read m p :=
  read_congr fun _ hf i hi => byte_of_exec h fun s hs _ hg => L.apart (hp s hs).symm hf hg i hi

/-- **What a run leaves in a field that it assigns to once**: the value of the expression, converted
to the type of the field. -/
theorem read_of_exec {ss : List Statement} {m m' : Image L.size} (h : exec L ss m = some m')
    (hnodup : (ss.map Prod.fst).Nodup) :
    ∀ s ∈ ss, ∃ f v, L.field s.1 = some f ∧ s.2.eval = some v ∧
      L.read m' s.1 = some (v.val % 256 ^ f.size).toNat := by
  induction ss generalizing m with
  | nil => simp
  | cons s ss ih =>
      obtain ⟨p, e⟩ := s
      rw [List.map_cons, List.nodup_cons] at hnodup
      obtain ⟨v, m₁, hv, hassign, hrest⟩ := exec_cons h
      refine List.forall_mem_cons.2 ⟨?_, ih hrest hnodup.2⟩
      obtain ⟨f, hf, -⟩ := Option.map_eq_some_iff.1 hassign
      refine ⟨f, v, hf, hv, ?_⟩
      -- the later assignments are to other fields
      have hlater : ∀ s ∈ ss, s.1 ≠ p := fun s hs heq =>
        hnodup.1 (List.mem_map.2 ⟨s, hs, heq⟩)
      rw [read_of_exec_of_not_mem hrest hlater, read_of_assign hassign hf]

end CProgram
