/-
**Rules of `make`, and when what it builds is right.**

A directory holds files with time stamps, and every write takes a later stamp than all before.  A
rule has a target, prerequisites and a recipe.  `make` runs the recipe of a rule when the target is
missing or older than a prerequisite, one rule after the other, and stops at the first recipe that
fails.  A recipe that fails may already have written to its target, which is then kept.

What `make` builds is right when no file misleads it: a target that counts as up to date, with all
that it is made from, holds what its recipe makes of its prerequisites.  A recipe that fails after
it has written, and a command that writes something else to a target, can leave a directory that
misleads `make`.  A write to a file that all targets are made from makes it sound again.

Main definitions:

* `Make.Rule`, `Make.Rule.exec`, `Make.Rule.build` — a rule, its recipe run, and the rule made;
* `Make.make`, `Make.script` — rules made, and their recipes run, in order;
* `Make.Sound` — no file misleads `make`.

Main results:

* `Make.Sound.write`, `Make.sound_of_depends` — what a write does to a sound directory, and a
  write that makes any directory sound;
* `Make.Sound.script` — recipes that are not torn keep it sound;
* `Make.Sound.right_of_make` — **`make` in a sound directory, if it succeeds, leaves every target
  right**.
-/

import Mathlib.Data.List.Induction
import Mathlib.Data.List.Nodup
import Mathlib.Data.Nat.Notation
import Mathlib.Logic.Function.Basic

set_option relaxedAutoImplicit false
set_option autoImplicit false

namespace Make

variable {N C E : Type*} [DecidableEq N]

/-! ### Directories -/

structure File (C : Type*) where
  time : ℕ
  content : C

structure Dir (N C : Type*) where
  file : N → Option (File C)
  /-- The time stamp of the next write. -/
  now : ℕ
  old : ∀ n f, file n = some f → f.time < now

namespace Dir

def content (d : Dir N C) (n : N) : Option C := (d.file n).map File.content

def write (d : Dir N C) (n : N) (c : C) : Dir N C where
  file := Function.update d.file n (some ⟨d.now, c⟩)
  now := d.now + 1
  old m f hf := by
    rcases eq_or_ne m n with rfl | hne
    · rw [Function.update_self, Option.some.injEq] at hf
      exact hf ▸ Nat.lt_succ_self _
    · rw [Function.update_of_ne hne] at hf
      exact Nat.lt_succ_of_lt (d.old m f hf)

def remove (d : Dir N C) (n : N) : Dir N C where
  file := Function.update d.file n none
  now := d.now
  old m f hf := by
    rcases eq_or_ne m n with rfl | hne
    · rw [Function.update_self] at hf
      cases hf
    · rw [Function.update_of_ne hne] at hf
      exact d.old m f hf

variable (d : Dir N C) {n m : N} (c : C)

theorem write_file_self : (d.write n c).file n = some ⟨d.now, c⟩ := Function.update_self ..

theorem write_file_of_ne (h : m ≠ n) : (d.write n c).file m = d.file m :=
  Function.update_of_ne h ..

theorem write_content_self : (d.write n c).content n = some c := by
  rw [content, write_file_self]
  rfl

theorem write_content_of_ne (h : m ≠ n) : (d.write n c).content m = d.content m := by
  rw [content, write_file_of_ne d c h]
  rfl

end Dir

/-! ### Rules -/

/-- How a recipe ends, and what it leaves in its target. -/
inductive Result (C : Type*) where
  | ok (c : C)
  /-- It fails and has not touched the target. -/
  | failed
  /-- It fails, and the target holds `c`. -/
  | torn (c : C)

inductive Status where
  | ok | failed | torn
  deriving DecidableEq, Repr

/-- A rule.  How its recipe ends depends on the prerequisites and on what happens, an `E`. -/
structure Rule (N C E : Type*) where
  target : N
  prereqs : List N
  /-- What the recipe should write, if it can. -/
  makes : (N → Option C) → Option C
  /-- What the recipe does. -/
  run : (N → Option C) → E → Result C
  makes_congr : ∀ s s', (∀ p ∈ prereqs, s p = s' p) → makes s = makes s'

namespace Rule

/-- The recipe is run. -/
def exec (r : Rule N C E) (e : E) (d : Dir N C) : Dir N C × Status :=
  match r.run d.content e with
  | .ok c => (d.write r.target c, .ok)
  | .failed => (d, .failed)
  | .torn c => (d.write r.target c, .torn)

/-- The target is there and not older than a prerequisite. -/
def upToDate (r : Rule N C E) (d : Dir N C) : Bool :=
  (d.file r.target).any fun f =>
    r.prereqs.all fun p => (d.file p).all fun g => decide (g.time ≤ f.time)

/-- The rule is made.  A prerequisite that is missing is an error. -/
def build (r : Rule N C E) (e : E) (d : Dir N C) : Dir N C × Status :=
  if r.prereqs.all (fun p => (d.file p).isSome) = true then
    if r.upToDate d = true then (d, .ok) else r.exec e d
  else (d, .failed)

/-- The target holds what the recipe makes of the prerequisites. -/
def Right (r : Rule N C E) (d : Dir N C) : Prop :=
  ∃ c, d.content r.target = some c ∧ r.makes d.content = some c

/-- A recipe that reports success has written what it should. -/
def Honest (r : Rule N C E) (e : E) : Prop := ∀ s c, r.run s e = .ok c → r.makes s = some c

end Rule

/-- Rules one after the other, until one fails. -/
def inOrder (f : Rule N C E → Dir N C → Dir N C × Status) :
    List (Rule N C E) → Dir N C → Dir N C × Status
  | [], d => (d, .ok)
  | r :: rs, d =>
      match f r d with
      | (d', .ok) => inOrder f rs d'
      | (d', .failed) => (d', .failed)
      | (d', .torn) => (d', .torn)

/-- **`make`**, where `env` says what happens to the recipe for each target. -/
def make (env : N → E) : List (Rule N C E) → Dir N C → Dir N C × Status :=
  inOrder fun r => r.build (env r.target)

/-- A shell script that runs the recipes and stops when one fails. -/
def script (env : N → E) : List (Rule N C E) → Dir N C → Dir N C × Status :=
  inOrder fun r => r.exec (env r.target)

/-! ### Sound directories -/

/-- `make` takes `n` for up to date: it is a source, or up to date and made from such files. -/
inductive Current (rules : List (Rule N C E)) (d : Dir N C) : N → Prop
  | source {n : N} : (∀ r ∈ rules, r.target ≠ n) → Current rules d n
  | target {r : Rule N C E} : r ∈ rules → r.upToDate d = true →
      (∀ p ∈ r.prereqs, Current rules d p) → Current rules d r.target

/-- **No file misleads `make`**: what it takes for up to date is right. -/
def Sound (rules : List (Rule N C E)) (d : Dir N C) : Prop :=
  ∀ r ∈ rules, r.upToDate d = true → (∀ p ∈ r.prereqs, Current rules d p) → r.Right d

section Write

variable {rules : List (Rule N C E)} {r : Rule N C E} {d : Dir N C} {n m : N} {c : C}

omit [DecidableEq N] in
theorem upToDate_iff : r.upToDate d = true ↔
    ∃ f, d.file r.target = some f ∧ ∀ p ∈ r.prereqs, ∀ g, d.file p = some g → g.time ≤ f.time := by
  rw [Rule.upToDate]
  cases d.file r.target with
  | none => simp
  | some f =>
      simp only [Option.any_some, List.all_eq_true, Option.some.injEq, exists_eq_left']
      refine forall₂_congr fun p _ => ?_
      cases d.file p <;> simp

/-- What is older than the newest file is not made from it. -/
theorem not_mem_prereqs_of_write (hne : r.target ≠ n) (h : r.upToDate (d.write n c) = true) :
    n ∉ r.prereqs := by
  intro hmem
  obtain ⟨f, hf, hle⟩ := upToDate_iff.1 h
  rw [d.write_file_of_ne c hne] at hf
  exact absurd (hle n hmem _ (d.write_file_self c)) (Nat.not_le.2 (d.old _ f hf))

/-- The other files do not change. -/
theorem upToDate_write (hne : r.target ≠ n) (hmem : n ∉ r.prereqs) :
    r.upToDate (d.write n c) = true ↔ r.upToDate d = true := by
  rw [upToDate_iff, upToDate_iff, d.write_file_of_ne c hne]
  refine exists_congr fun f => and_congr_right fun _ => forall₂_congr fun p hp => ?_
  have hp' : p ≠ n := fun heq => hmem (heq ▸ hp)
  rw [d.write_file_of_ne c hp']

theorem right_write (hne : r.target ≠ n) (hmem : n ∉ r.prereqs) (h : r.Right d) :
    r.Right (d.write n c) := by
  obtain ⟨c', hc', hmakes⟩ := h
  refine ⟨c', (d.write_content_of_ne c hne).trans hc', ?_⟩
  rw [← hmakes]
  exact r.makes_congr _ _ fun p hp => d.write_content_of_ne c fun heq => hmem (heq ▸ hp)

/-- A file other than the newest that counts as up to date did so before. -/
theorem current_of_write (h : Current rules (d.write n c) m) (hne : m ≠ n) : Current rules d m := by
  induction h with
  | source hsource => exact .source hsource
  | target hr hup _ ih =>
      have hmem := not_mem_prereqs_of_write hne hup
      exact .target hr ((upToDate_write hne hmem).1 hup) fun p hp =>
        ih p hp fun heq => hmem (heq ▸ hp)

/-- **A write keeps a directory sound** if the targets that are written are right. -/
theorem Sound.write (h : Sound rules d)
    (hright : ∀ r ∈ rules, r.target = n → r.Right (d.write n c)) : Sound rules (d.write n c) := by
  intro r hr hup hpre
  by_cases hne : r.target = n
  · exact hright r hr hne
  · have hmem := not_mem_prereqs_of_write hne hup
    refine right_write hne hmem (h r hr ((upToDate_write hne hmem).1 hup) fun p hp => ?_)
    exact current_of_write (hpre p hp) fun heq => hmem (heq ▸ hp)

/-- The targets that are made from `n`. -/
inductive Depends (rules : List (Rule N C E)) (n : N) : N → Prop
  | direct {r : Rule N C E} : r ∈ rules → n ∈ r.prereqs → Depends rules n r.target
  | through {r : Rule N C E} {m : N} : r ∈ rules → m ∈ r.prereqs → Depends rules n m →
      Depends rules n r.target

end Write

/-! ### Rules in order -/

/-- Every target has one rule, and what it is made from is a source or comes before it. -/
structure Ordered (rules : List (Rule N C E)) : Prop where
  nodup : (rules.map Rule.target).Nodup
  later : rules.Pairwise fun r r' => r'.target ∉ r.prereqs
  self : ∀ r ∈ rules, r.target ∉ r.prereqs

section Ordered

variable {rules : List (Rule N C E)} {r r' : Rule N C E} {d : Dir N C} {n m : N} {c : C} {e : E}

omit [DecidableEq N] in
theorem Ordered.unique (h : Ordered rules) (hr : r ∈ rules) (hr' : r' ∈ rules)
    (heq : r.target = r'.target) : r = r' :=
  List.inj_on_of_nodup_map h.nodup hr hr' heq

/-- What is made from the newest file does not count as up to date. -/
theorem not_current_of_depends (h : Ordered rules) (hdep : Depends rules n m) :
    ¬Current rules (d.write n c) m := by
  induction hdep with
  | @direct r hr hmem =>
      intro hcur
      generalize hm : r.target = m at hcur
      cases hcur with
      | source hsource => exact hsource r hr hm
      | @target r' hr' hup hpre =>
          obtain rfl := h.unique hr hr' hm
          exact not_mem_prereqs_of_write (fun heq => h.self r hr (heq ▸ hmem)) hup hmem
  | @through r p hr hp _ ih =>
      intro hcur
      generalize hm : r.target = m at hcur
      cases hcur with
      | source hsource => exact hsource r hr hm
      | @target r' hr' hup hpre =>
          obtain rfl := h.unique hr hr' hm
          exact ih (hpre p hp)

/-- **A write to a file that all other targets are made from makes any directory sound.** -/
theorem sound_of_depends (h : Ordered rules)
    (hdep : ∀ r ∈ rules, Depends rules n r.target ∨ r.Right (d.write n c)) :
    Sound rules (d.write n c) := by
  intro r hr hup hpre
  rcases hdep r hr with hdep | hright
  · exact absurd (.target hr hup hpre) (not_current_of_depends h hdep)
  · exact hright

/-- A recipe that succeeds and is honest makes its target right. -/
theorem Ordered.right_of_makes (h : Ordered rules) (hr : r ∈ rules)
    (hmakes : r.makes d.content = some c) : r.Right (d.write r.target c) := by
  refine ⟨c, d.write_content_self c, ?_⟩
  rw [← hmakes]
  exact r.makes_congr _ _ fun p hp => d.write_content_of_ne c fun heq => h.self r hr (heq ▸ hp)

theorem exec_of_ok (h : r.run d.content e = .ok c) : r.exec e d = (d.write r.target c, .ok) := by
  rw [Rule.exec, h]

theorem exec_of_failed (h : r.run d.content e = .failed) : r.exec e d = (d, .failed) := by
  rw [Rule.exec, h]

/-- What one recipe does. -/
theorem exec_cases (r : Rule N C E) (e : E) (d : Dir N C) :
    (∃ c, r.run d.content e = .ok c ∧ r.exec e d = (d.write r.target c, .ok)) ∨
      (r.run d.content e = .failed ∧ r.exec e d = (d, .failed)) ∨
        ∃ c, r.run d.content e = .torn c ∧ r.exec e d = (d.write r.target c, .torn) := by
  cases hrun : r.run d.content e with
  | ok c => exact .inl ⟨c, rfl, exec_of_ok hrun⟩
  | failed => exact .inr (.inl ⟨rfl, exec_of_failed hrun⟩)
  | torn c => exact .inr (.inr ⟨c, rfl, by rw [Rule.exec, hrun]⟩)

/-- **A recipe that is not torn keeps a directory sound.** -/
theorem Sound.exec (h : Sound rules d) (hord : Ordered rules) (hr : r ∈ rules)
    (hhonest : r.Honest e) (htorn : (r.exec e d).2 ≠ .torn) : Sound rules (r.exec e d).1 := by
  rcases exec_cases r e d with ⟨c, hrun, hexec⟩ | ⟨-, hexec⟩ | ⟨c, -, hexec⟩
  · rw [hexec]
    refine h.write fun r' hr' htarget => ?_
    obtain rfl := hord.unique hr' hr htarget
    exact hord.right_of_makes hr (hhonest _ _ hrun)
  · rw [hexec]
    exact h
  · rw [hexec] at htorn
    exact absurd rfl htorn

/-- What making a rule does. -/
theorem build_cases (r : Rule N C E) (e : E) (d : Dir N C) :
    r.build e d = (d, .failed) ∨ (r.upToDate d = true ∧ r.build e d = (d, .ok)) ∨
      r.build e d = r.exec e d := by
  unfold Rule.build
  split_ifs with hpre hup
  · exact .inr (.inl ⟨hup, rfl⟩)
  · exact .inr (.inr rfl)
  · exact .inl rfl

theorem Sound.build (h : Sound rules d) (hord : Ordered rules) (hr : r ∈ rules)
    (hhonest : r.Honest e) (htorn : (r.build e d).2 ≠ .torn) : Sound rules (r.build e d).1 := by
  rcases build_cases r e d with hbuild | ⟨-, hbuild⟩ | hbuild
  · rw [hbuild]
    exact h
  · rw [hbuild]
    exact h
  · rw [hbuild] at htorn ⊢
    exact h.exec hord hr hhonest htorn

/-- A rule that has been made is up to date. -/
theorem upToDate_build (hself : r.target ∉ r.prereqs) (hok : (r.build e d).2 = .ok) :
    r.upToDate (r.build e d).1 = true := by
  rcases build_cases r e d with hbuild | ⟨hup, hbuild⟩ | hbuild
  · rw [hbuild] at hok
    cases hok
  · rw [hbuild]
    exact hup
  · rw [hbuild] at hok ⊢
    rcases exec_cases r e d with ⟨c, -, hexec⟩ | ⟨-, hexec⟩ | ⟨c, -, hexec⟩
    · rw [hexec]
      refine upToDate_iff.2 ⟨_, d.write_file_self c, fun p hp g hg => ?_⟩
      have hne : p ≠ r.target := fun heq => hself (heq ▸ hp)
      rw [d.write_file_of_ne c hne] at hg
      exact Nat.le_of_lt (d.old p g hg)
    · rw [hexec] at hok
      cases hok
    · rw [hexec] at hok
      cases hok

/-- A rule stays up to date when a later one is made. -/
theorem upToDate_build_of_ne (hne : r'.target ≠ r.target) (hmem : r.target ∉ r'.prereqs)
    (hup : r'.upToDate d = true) : r'.upToDate (r.build e d).1 = true := by
  rcases build_cases r e d with hbuild | ⟨-, hbuild⟩ | hbuild
  · rw [hbuild]
    exact hup
  · rw [hbuild]
    exact hup
  · rw [hbuild]
    rcases exec_cases r e d with ⟨c, -, hexec⟩ | ⟨-, hexec⟩ | ⟨c, -, hexec⟩
    · rw [hexec]
      exact (upToDate_write hne hmem).2 hup
    · rw [hexec]
      exact hup
    · rw [hexec]
      exact (upToDate_write hne hmem).2 hup

end Ordered

/-! ### Rules one after the other -/

section InOrder

variable {f : Rule N C E → Dir N C → Dir N C × Status} {rules todo : List (Rule N C E)}
  {r : Rule N C E} {d : Dir N C} {env : N → E}

omit [DecidableEq N] in
theorem inOrder_cons_of_ok (h : (f r d).2 = .ok) :
    inOrder f (r :: rules) d = inOrder f rules (f r d).1 := by
  simp only [inOrder]
  split
  · next hf => rw [hf]
  · next hf => rw [hf] at h; cases h
  · next hf => rw [hf] at h; cases h

omit [DecidableEq N] in
theorem inOrder_cons_of_ne (h : (f r d).2 ≠ .ok) : inOrder f (r :: rules) d = f r d := by
  simp only [inOrder]
  split
  · next hf => rw [hf] at h; exact absurd rfl h
  · next hf => rw [hf]
  · next hf => rw [hf]

omit [DecidableEq N] in
/-- What every rule keeps that is not torn, all of them keep. -/
theorem inOrder_inv {I : Dir N C → Prop}
    (hf : ∀ r ∈ rules, ∀ d, I d → (f r d).2 ≠ .torn → I (f r d).1) (h : I d)
    (htorn : (inOrder f rules d).2 ≠ .torn) : I (inOrder f rules d).1 := by
  induction rules generalizing d with
  | nil => exact h
  | cons r rules ih =>
      rw [List.forall_mem_cons] at hf
      by_cases hok : (f r d).2 = .ok
      · rw [inOrder_cons_of_ok hok] at htorn ⊢
        exact ih hf.2 (hf.1 d h (by rw [hok]; exact Status.noConfusion)) htorn
      · rw [inOrder_cons_of_ne hok] at htorn ⊢
        exact hf.1 d h htorn

/-- **A script whose recipes are not torn keeps a directory sound.** -/
theorem Sound.script (h : Sound rules d) (hord : Ordered rules) (hsub : todo ⊆ rules)
    (hhonest : ∀ r ∈ todo, r.Honest (env r.target)) (htorn : (Make.script env todo d).2 ≠ .torn) :
    Sound rules (Make.script env todo d).1 :=
  inOrder_inv (fun r hr _ hd => hd.exec hord (hsub hr) (hhonest r hr)) h htorn

theorem Sound.make (h : Sound rules d) (hord : Ordered rules)
    (hhonest : ∀ r ∈ rules, r.Honest (env r.target)) (htorn : (Make.make env rules d).2 ≠ .torn) :
    Sound rules (Make.make env rules d).1 :=
  inOrder_inv (fun r hr _ hd => hd.build hord hr (hhonest r hr)) h htorn

/-- After `make` has succeeded all targets are up to date. -/
theorem upToDate_make (done : List (Rule N C E)) (hord : Ordered (done ++ todo))
    (hdone : ∀ r ∈ done, r.upToDate d = true) (hok : (Make.make env todo d).2 = .ok) :
    ∀ r ∈ done ++ todo, r.upToDate (Make.make env todo d).1 = true := by
  -- one rule at a time goes from `todo` to `done`
  induction todo generalizing done d with
  | nil =>
      rw [List.append_nil]
      exact hdone
  | cons r todo ih =>
      have hr : (r.build (env r.target) d).2 = .ok := by
        by_contra hne
        rw [Make.make, inOrder_cons_of_ne hne] at hok
        exact hne hok
      have hmake : Make.make env (r :: todo) d =
          Make.make env todo (r.build (env r.target) d).1 := inOrder_cons_of_ok hr
      rw [hmake] at hok ⊢
      have happend : done ++ r :: todo = (done ++ [r]) ++ todo := by simp
      have hnodup := hord.nodup
      rw [List.map_append, List.map_cons, List.nodup_append] at hnodup
      have hlater := (List.pairwise_append.1 hord.later).2.2
      rw [happend]
      refine ih (done ++ [r]) (happend ▸ hord) (fun r' hr' => ?_) hok
      rcases List.mem_append.1 hr' with hr' | hr'
      · exact upToDate_build_of_ne
          (hnodup.2.2 _ (List.mem_map_of_mem hr') _ List.mem_cons_self)
          (hlater r' hr' r List.mem_cons_self) (hdone r' hr')
      · obtain rfl := List.mem_singleton.1 hr'
        exact upToDate_build (hord.self r' (by simp)) hr

omit [DecidableEq N] in
/-- A file that is no target is a source. -/
theorem current_of_targets {p : N} (h : ∀ r ∈ rules, r.target = p → Current rules d p) :
    Current rules d p := by
  by_cases hsource : ∀ r ∈ rules, r.target ≠ p
  · exact .source hsource
  · simp only [not_forall, not_not] at hsource
    obtain ⟨r, hr, htarget⟩ := hsource
    exact h r hr htarget

omit [DecidableEq N] in
/-- When every target is up to date, `make` takes all of them for up to date. -/
theorem current_of_upToDate (hord : Ordered rules) (hup : ∀ r ∈ rules, r.upToDate d = true)
    {l₁ l₂ : List (Rule N C E)} (heq : rules = l₁ ++ l₂) :
    ∀ r ∈ l₁, Current rules d r.target := by
  induction l₁ using List.reverseRecOn generalizing l₂ with
  | nil => simp
  | append_singleton l₁ r ih =>
      rw [List.append_assoc, List.singleton_append] at heq
      intro r' hr'
      rcases List.mem_append.1 hr' with hr' | hr'
      · exact ih heq r' hr'
      · obtain rfl := List.mem_singleton.1 hr'
        have hmem : r' ∈ rules := heq ▸ List.mem_append_right _ List.mem_cons_self
        refine .target hmem (hup r' hmem) fun p hp => ?_
        refine current_of_targets fun r hr htarget => ?_
        subst htarget
        have hlater := hord.later
        rw [heq, List.pairwise_append, List.pairwise_cons] at hlater
        rw [heq] at hr
        rcases List.mem_append.1 hr with hr | hr
        · exact ih heq r hr
        · rcases List.mem_cons.1 hr with rfl | hr
          · exact absurd hp (hord.self r hmem)
          · exact absurd hp (hlater.2.1.1 r hr)

/-- **`make` in a sound directory, if it succeeds, leaves every target right.** -/
theorem Sound.right_of_make (h : Sound rules d) (hord : Ordered rules)
    (hhonest : ∀ r ∈ rules, r.Honest (env r.target)) (hok : (Make.make env rules d).2 = .ok) :
    ∀ r ∈ rules, r.Right (Make.make env rules d).1 := by
  have hsound : Sound rules (Make.make env rules d).1 :=
    h.make hord hhonest (by rw [hok]; exact Status.noConfusion)
  have hup : ∀ r ∈ rules, r.upToDate (Make.make env rules d).1 = true :=
    upToDate_make [] hord (by simp) hok
  intro r hr
  have hcurrent := current_of_upToDate hord hup (List.append_nil rules).symm
  exact hsound r hr (hup r hr) fun p hp =>
    current_of_targets fun r' hr' htarget => htarget ▸ hcurrent r' hr'

end InOrder

end Make
