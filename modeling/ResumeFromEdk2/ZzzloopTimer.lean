/-
**Deleting the test timer.**

The kernel module has a timer whose handler arms it again.  A read of `/proc/zzzloop_timer_start`
arms it, and a read of `/proc/zzzloop_timer_del` deletes it, with `del_timer`.  Several reads may be
in progress at a time, and handlers beside them: here every read and every run of the handler is a
thread, and a step is one call of one thread.  `mod_timer` and `del_timer` are single steps of the
kernel's; an expiry of the pending timer may come at any time, and starts a handler.

`del_timer` does not wait for a handler that has begun.  If such a handler has not yet come to its
`mod_timer`, it arms the timer after the deletion, and goes on to run every 250 ms although the
last read was a delete.  Reads can also overlap so that the delete returns last although its
`del_timer` came before the `mod_timer` of a start.  Nothing else undoes a deletion.

Main definitions:

* `ZzzloopTimer.State`, `ZzzloopTimer.step` — the timer and the threads, and their steps;
* `ZzzloopTimer.DelFinal` — after a delete nothing runs until the next start;
* `ZzzloopTimer.InOrder` — the restriction on the steps of a run.

Main results:

* `ZzzloopTimer.rearmed_iff` — in every run, the order of the calls tells whether the timer is on;
* `ZzzloopTimer.delFinal_of_inOrder` — **in a run in which the last `del_timer` is not undone when
  a delete returns, every deletion is final**;
* `ZzzloopTimer.not_delFinal_handler` — a run in which one is not;
* `ZzzloopTimer.exists_not_delFinal` — every other delete that returns last fails to be final.
-/

import Mathlib.Data.List.Basic
import ResumeFromEdk2.StepSystem

set_option relaxedAutoImplicit false
set_option autoImplicit false

namespace ZzzloopTimer

open StepSystem

/-! ### Threads -/

/-- The next call of `zzzloop_timer_start_proc_show`. -/
inductive StartPc where
  | printk | modTimer | seqPrintf | ret
  deriving DecidableEq, Repr

/-- The next call of `zzzloop_timer_del_proc_show`. -/
inductive DelPc where
  | delTimer | seqPrintf | ret
  deriving DecidableEq, Repr

/-- The next call of `zzzloop_timer_handler`. -/
inductive HandlerPc where
  | modTimer | printk | ret
  deriving DecidableEq, Repr

inductive Thread where
  | timerStart (pc : StartPc)
  | timerDel (pc : DelPc)
  | timerHandler (pc : HandlerPc)
  deriving DecidableEq, Repr

namespace Thread

def isStart : Thread → Bool
  | .timerStart _ => true
  | _ => false

def isDel : Thread → Bool
  | .timerDel _ => true
  | _ => false

def isHandler : Thread → Bool
  | .timerHandler _ => true
  | _ => false

/-- Where a thread stands after its next call, unless it has returned. -/
def next : Thread → Option Thread
  | .timerStart .printk => some (.timerStart .modTimer)
  | .timerStart .modTimer => some (.timerStart .seqPrintf)
  | .timerStart .seqPrintf => some (.timerStart .ret)
  | .timerStart .ret => none
  | .timerDel .delTimer => some (.timerDel .seqPrintf)
  | .timerDel .seqPrintf => some (.timerDel .ret)
  | .timerDel .ret => none
  | .timerHandler .modTimer => some (.timerHandler .printk)
  | .timerHandler .printk => some (.timerHandler .ret)
  | .timerHandler .ret => none

end Thread

/-- The threads after the `i`-th has gone on. -/
def resume (l : List Thread) (i : ℕ) : Option Thread → List Thread
  | some t => l.set i t
  | none => l.eraseIdx i

section Resume

variable {l : List Thread} {i : ℕ} {t t₀ : Thread} {o : Option Thread}

theorem mem_of_mem_resume (h : t ∈ resume l i o) : t ∈ l ∨ o = some t := by
  cases o with
  | none => exact .inl (List.mem_of_mem_eraseIdx h)
  | some t' =>
      rcases List.mem_or_eq_of_mem_set h with h | rfl
      · exact .inl h
      · exact .inr rfl

theorem mem_resume_some (h : l[i]? = some t₀) : t ∈ resume l i (some t) := by
  obtain ⟨hi, -⟩ := List.getElem?_eq_some_iff.1 h
  exact List.mem_set hi t

/-- The other threads stay. -/
theorem mem_resume_of_ne (h : l[i]? = some t₀) (ht : t ∈ l) (hne : t ≠ t₀) :
    t ∈ resume l i o := by
  obtain ⟨j, hj⟩ := List.mem_iff_getElem?.1 ht
  have hij : i ≠ j := by
    rintro rfl
    exact hne (Option.some.inj (hj.symm.trans h))
  cases o with
  | none => exact List.mem_eraseIdx_iff_getElem?.2 ⟨j, hij.symm, hj⟩
  | some t' =>
      refine List.mem_iff_getElem?.2 ⟨j, ?_⟩
      change (l.set i t')[j]? = some t
      rw [List.getElem?_set_ne hij, hj]

end Resume

/-! ### Steps -/

/-- A read of one of the two files. -/
inductive Read where
  | start | del
  deriving DecidableEq, Repr

structure State where
  pending : Bool
  /-- `zzzloop_counter` -/
  counter : BitVec 64
  threads : List Thread
  /-- A history variable: the read that has returned last. -/
  lastRead : Option Read
  /-- A history variable: a start has called `mod_timer` after the last `del_timer`, or that
  `del_timer` came while a handler had begun and not yet called `mod_timer`. -/
  rearmed : Bool
  deriving DecidableEq, Repr

namespace State

def spawn (s : State) (t : Thread) : State := { s with threads := s.threads ++ [t] }

/-- What the next call of a thread does, apart from the thread. -/
def call (s : State) : Thread → State
  | .timerStart .printk => s
  | .timerStart .modTimer => { s with pending := true, rearmed := true }
  | .timerStart .seqPrintf => s
  | .timerStart .ret => { s with lastRead := some .start }
  | .timerDel .delTimer =>
      { s with pending := false, rearmed := .timerHandler .modTimer ∈ s.threads }
  | .timerDel .seqPrintf => s
  | .timerDel .ret => { s with lastRead := some .del }
  | .timerHandler .modTimer => { s with pending := true }
  | .timerHandler .printk => { s with counter := s.counter + 1 }
  | .timerHandler .ret => s

/-- The `i`-th thread, which stands at `t`, goes on. -/
def advance (s : State) (i : ℕ) (t : Thread) : State :=
  { s.call t with threads := resume s.threads i t.next }

/-- The timer is detached, and the handler begins.  It may begin beside another that has not
returned, which the kernel does not do. -/
def expire (s : State) : State := { s.spawn (.timerHandler .modTimer) with pending := false }

/-- `DEFINE_TIMER` -/
def initial : State where
  pending := false
  counter := 0
  threads := []
  lastRead := none
  rearmed := false

@[simp] theorem advance_threads (s : State) (i : ℕ) (t : Thread) :
    (s.advance i t).threads = resume s.threads i t.next := rfl

end State

inductive Act where
  | readStart
  | readDel
  | expire
  /-- The next call of one of the threads. -/
  | advance (i : ℕ)
  deriving DecidableEq, Repr

/-- **The system of the timer and the threads.** -/
def step (s : State) : Act → Option State
  | .readStart => some (s.spawn (.timerStart .printk))
  | .readDel => some (s.spawn (.timerDel .delTimer))
  | .expire => if s.pending = true then some s.expire else none
  | .advance i => s.threads[i]?.map (s.advance i)

/-! ### Final deletions -/

/-- No read of `/proc/zzzloop_timer_start` is in progress. -/
def NoStart (s : State) : Prop := ∀ t ∈ s.threads, t.isStart = false

def NoHandler (s : State) : Prop := ∀ t ∈ s.threads, t.isHandler = false

instance (s : State) : Decidable (NoStart s) := by unfold NoStart; infer_instance

/-- **After a delete nothing runs until the next start**: the timer is not pending, and until a
read of `/proc/zzzloop_timer_start` begins it does not expire and the handler does not run. -/
def DelFinal (s : State) : Prop :=
  s.lastRead = some .del → NoStart s → NoHandler s →
    s.pending = false ∧ ∀ s', Reach step (fun _ a => a ≠ .readStart) s s' →
      s'.pending = false ∧ NoHandler s' ∧ s'.counter = s.counter

/-- When a delete returns and no start is in progress, the last `del_timer` has come after the last
`mod_timer` of a start, and at a time when no handler was about to call `mod_timer`. -/
def InOrder (s : State) : Act → Prop
  | .advance i => s.threads[i]? = some (.timerDel .ret) → NoStart s → s.rearmed = false
  | .readStart | .readDel | .expire => True

instance (s : State) (a : Act) : Decidable (InOrder s a) := by
  cases a <;> unfold InOrder <;> infer_instance

/-! ### What keeps the timer on -/

/-- The timer is pending, or a handler is about to arm it. -/
def Live (s : State) : Prop := s.pending = true ∨ .timerHandler .modTimer ∈ s.threads

section Steps

variable {s s' : State} {i : ℕ} {t : Thread} {a : Act}

/-- No thread comes to the beginning of the handler. -/
theorem next_ne_handler : t.next ≠ some (.timerHandler .modTimer) := by
  rcases t with pc | pc | pc <;> cases pc <;> exact fun h => by cases h

/-- The handlers that are about to arm the timer stay where they are when another thread goes
on. -/
theorem handler_mem_advance (ht : s.threads[i]? = some t) (hne : t ≠ .timerHandler .modTimer) :
    .timerHandler .modTimer ∈ (s.advance i t).threads ↔ .timerHandler .modTimer ∈ s.threads := by
  constructor
  · intro h
    exact (mem_of_mem_resume h).resolve_right next_ne_handler
  · intro h
    exact mem_resume_of_ne ht h hne.symm

theorem handler_mem_spawn (hne : t ≠ .timerHandler .modTimer) :
    .timerHandler .modTimer ∈ (s.spawn t).threads ↔ .timerHandler .modTimer ∈ s.threads := by
  constructor
  · intro h
    rcases List.mem_append.1 h with h | h
    · exact h
    · exact absurd (List.mem_singleton.1 h).symm hne
  · intro h
    exact List.mem_append_left _ h

/-- A call that does not touch the timer. -/
theorem live_advance (ht : s.threads[i]? = some t) (hne : t ≠ .timerHandler .modTimer)
    (hpending : (s.call t).pending = s.pending) : Live (s.advance i t) ↔ Live s := by
  rw [Live, Live, handler_mem_advance ht hne]
  exact or_congr_left (Eq.congr_left hpending)

/-- What one call does to the history variable. -/
theorem rearmed_advance (h : s.rearmed = true ↔ Live s) (ht : s.threads[i]? = some t) :
    (s.advance i t).rearmed = true ↔ Live (s.advance i t) := by
  cases t with
  | timerStart pc =>
      cases pc with
      | modTimer => exact iff_of_true rfl (.inl rfl)
      | printk | seqPrintf | ret => exact h.trans (live_advance ht (by simp) rfl).symm
  | timerDel pc =>
      cases pc with
      | delTimer =>
          -- the timer is off now, so that only a handler can arm it
          rw [Live, handler_mem_advance ht (by simp)]
          exact decide_eq_true_iff.trans (by simp [State.advance, State.call])
      | seqPrintf | ret => exact h.trans (live_advance ht (by simp) rfl).symm
  | timerHandler pc =>
      cases pc with
      | modTimer => exact iff_of_true (h.2 (.inr (List.mem_of_getElem? ht))) (.inl rfl)
      | printk | ret => exact h.trans (live_advance ht (by simp) rfl).symm

theorem rearmed_step (h : s.rearmed = true ↔ Live s) (hs : step s a = some s') :
    s'.rearmed = true ↔ Live s' := by
  cases a with
  | readStart =>
      obtain rfl := Option.some.inj hs
      exact h.trans (or_congr_right (handler_mem_spawn (by simp)).symm)
  | readDel =>
      obtain rfl := Option.some.inj hs
      exact h.trans (or_congr_right (handler_mem_spawn (by simp)).symm)
  | expire =>
      obtain ⟨hpending, hs⟩ := Option.ite_none_right_eq_some.1 hs
      obtain rfl := Option.some.inj hs
      exact iff_of_true (h.2 (.inl hpending))
        (.inr (List.mem_append_right _ (List.mem_singleton_self _)))
  | advance i =>
      obtain ⟨t, ht, rfl⟩ := Option.map_eq_some_iff.1 hs
      exact rearmed_advance h ht

/-- **In every run the order of the calls tells whether the timer is on.** -/
theorem rearmed_iff {ok : State → Act → Prop} (h : Reach step ok State.initial s) :
    s.rearmed = true ↔ Live s :=
  h.inv (by simp [Live, State.initial]) fun _ _ _ hi _ hs => rearmed_step hi hs

end Steps

/-! ### Deletes that return last -/

section Deletes

variable {s s' : State} {i : ℕ} {t : Thread} {a : Act}

/-- A thread that is no start ends no start. -/
theorem NoStart.of_advance (ht : s.threads[i]? = some t) (hstart : t.isStart = false)
    (h : NoStart (s.advance i t)) : NoStart s := by
  intro t' ht'
  by_cases heq : t' = t
  · rw [heq, hstart]
  · exact h t' (mem_resume_of_ne ht ht' heq)

theorem NoStart.of_spawn (h : NoStart (s.spawn t)) : NoStart s := fun t' ht' =>
  h t' (List.mem_append_left _ ht')

/-- A start that has not returned is in progress. -/
theorem not_noStart_advance {pc : StartPc} (ht : s.threads[i]? = some t)
    (hnext : t.next = some (.timerStart pc)) : ¬NoStart (s.advance i t) := by
  intro h
  have hmem : .timerStart pc ∈ (s.advance i t).threads := by
    rw [State.advance_threads, hnext]
    exact mem_resume_some ht
  exact Bool.noConfusion (h _ hmem)

/-- The last read was a delete, and it has not been undone. -/
def Deleted (s : State) : Prop := s.lastRead = some .del → NoStart s → s.rearmed = false

/-- A call that changes neither history variable. -/
theorem Deleted.advance (h : Deleted s) (ht : s.threads[i]? = some t) (hstart : t.isStart = false)
    (hlast : (s.call t).lastRead = s.lastRead) (hrearmed : (s.call t).rearmed = s.rearmed) :
    Deleted (s.advance i t) := fun hl hs =>
  hrearmed.trans (h (hlast.symm.trans hl) (hs.of_advance ht hstart))

/-- The next call of a start.  Until it returns it is in progress, and then it is the last. -/
theorem deleted_advance_start {pc : StartPc} (ht : s.threads[i]? = some (.timerStart pc)) :
    Deleted (s.advance i (.timerStart pc)) := by
  cases pc with
  | printk | modTimer | seqPrintf => exact fun _ hs => absurd hs (not_noStart_advance ht rfl)
  | ret => exact fun hl => by cases hl

end Deletes

/-! ### Runs -/

/-- What every permitted run keeps. -/
structure Inv (s : State) : Prop where
  live : s.rearmed = true ↔ Live s
  deleted : Deleted s

theorem Inv.initial : Inv State.initial where
  live := by simp [Live, State.initial]
  deleted hl := by cases hl

section Runs

variable {s s' : State} {i : ℕ} {a : Act}

/-- The next call of a delete. -/
theorem Inv.deleted_advance_del {pc : DelPc} (h : Inv s) (hok : InOrder s (.advance i))
    (ht : s.threads[i]? = some (.timerDel pc)) : Deleted (s.advance i (.timerDel pc)) := by
  cases pc with
  | delTimer =>
      intro hl hs
      refine decide_eq_false fun hmem => ?_
      -- a handler that is about to arm the timer was not there when the last read returned
      have hrearmed := h.live.2 (.inr hmem)
      rw [h.deleted hl (hs.of_advance ht rfl)] at hrearmed
      cases hrearmed
  | seqPrintf => exact h.deleted.advance ht rfl rfl rfl
  | ret => exact fun _ hs => hok ht (hs.of_advance ht rfl)

/-- **Every permitted step keeps the invariant.** -/
theorem Inv.step (h : Inv s) (hok : InOrder s a) (hs : step s a = some s') : Inv s' where
  live := rearmed_step h.live hs
  deleted := by
    cases a with
    | readStart =>
        obtain rfl := Option.some.inj hs
        exact fun hl hno => h.deleted hl hno.of_spawn
    | readDel =>
        obtain rfl := Option.some.inj hs
        exact fun hl hno => h.deleted hl hno.of_spawn
    | expire =>
        obtain rfl := Option.some.inj (Option.ite_none_right_eq_some.1 hs).2
        exact fun hl hno => h.deleted hl (NoStart.of_spawn hno)
    | advance i =>
        obtain ⟨t, ht, rfl⟩ := Option.map_eq_some_iff.1 hs
        cases t with
        | timerStart pc => exact deleted_advance_start ht
        | timerDel pc => exact h.deleted_advance_del hok ht
        | timerHandler pc => cases pc <;> exact h.deleted.advance ht rfl rfl rfl

end Runs

/-- Only deletes are in progress, the timer is off and the counter is `n`. -/
structure Quiet (n : BitVec 64) (s : State) : Prop where
  pending : s.pending = false
  dels : ∀ t ∈ s.threads, t.isDel = true
  counter : s.counter = n

section Quiet

variable {n : BitVec 64} {s s' : State} {a : Act} {t : Thread}

theorem Quiet.of_step (h : Quiet n s) (ha : a ≠ .readStart) (hs : step s a = some s') :
    Quiet n s' := by
  cases a with
  | readStart => exact absurd rfl ha
  | readDel =>
      obtain rfl := Option.some.inj hs
      refine ⟨h.pending, fun t ht => ?_, h.counter⟩
      rcases List.mem_append.1 ht with ht | ht
      · exact h.dels t ht
      · rw [List.mem_singleton.1 ht]
        rfl
  | expire =>
      have hpending := (Option.ite_none_right_eq_some.1 hs).1
      rw [h.pending] at hpending
      cases hpending
  | advance i =>
      obtain ⟨t, ht, rfl⟩ := Option.map_eq_some_iff.1 hs
      have hdel := h.dels t (List.mem_of_getElem? ht)
      cases t with
      | timerStart pc => cases hdel
      | timerHandler pc => cases hdel
      | timerDel pc =>
          refine ⟨?_, fun t ht => ?_, ?_⟩
          · cases pc with
            | delTimer => rfl
            | seqPrintf | ret => exact h.pending
          · rcases mem_of_mem_resume ht with ht | hnext
            · exact h.dels t ht
            · cases pc <;> cases hnext <;> rfl
          · cases pc <;> exact h.counter

/-- When the timer is off and only deletes are in progress, this lasts until the next start. -/
theorem Quiet.of_reach (h : Quiet n s) (hreach : Reach step (fun _ a => a ≠ .readStart) s s') :
    Quiet n s' :=
  hreach.inv h fun _ _ _ hq ha hs => hq.of_step ha hs

theorem isDel_of_not (hstart : t.isStart = false) (hhandler : t.isHandler = false) :
    t.isDel = true := by
  cases t with
  | timerStart pc => cases hstart
  | timerDel pc => rfl
  | timerHandler pc => cases hhandler

theorem Quiet.noHandler (h : Quiet n s) : NoHandler s := by
  intro t ht
  have hdel := h.dels t ht
  cases t with
  | timerStart pc => rfl
  | timerDel pc => rfl
  | timerHandler pc => cases hdel

end Quiet

/-- **A deletion is final** in every run in which, when a delete returns and no start is in
progress, the last `del_timer` has come after the last `mod_timer` of a start and has met no
handler that was about to call `mod_timer`. -/
theorem delFinal_of_inOrder {s : State} (h : Reach step InOrder State.initial s) : DelFinal s := by
  have hinv : Inv s := h.inv Inv.initial fun _ _ _ hi hok hs => hi.step hok hs
  intro hlast hstart hhandler
  have hpending : s.pending = false := by
    refine Bool.eq_false_iff.2 fun hpending => ?_
    have hrearmed := hinv.live.2 (.inl hpending)
    rw [hinv.deleted hlast hstart] at hrearmed
    cases hrearmed
  have hquiet : Quiet s.counter s :=
    ⟨hpending, fun t ht => isDel_of_not (hstart t ht) (hhandler t ht), rfl⟩
  refine ⟨hpending, fun s' hreach => ?_⟩
  have hquiet' := hquiet.of_reach hreach
  exact ⟨hquiet'.pending, hquiet'.noHandler, hquiet'.counter⟩

/-- The timer is started, it expires once, and it is deleted when the handler has returned. -/
def deleteAfterHandler : List Act :=
  [.readStart, .advance 0, .advance 0, .advance 0, .advance 0, .expire, .advance 0, .advance 0,
   .advance 0, .readDel, .advance 0, .advance 0, .advance 0]

theorem delFinal_of_inOrder_run : ∃ s, run step InOrder State.initial deleteAfterHandler = some s ∧
    s.lastRead = some .del ∧ s.threads = [] ∧ s.counter = 1 ∧ DelFinal s := by
  have hrun : ∃ s, run step InOrder State.initial deleteAfterHandler = some s ∧
      s.lastRead = some .del ∧ s.threads = [] ∧ s.counter = 1 := ⟨_, rfl, rfl, rfl, rfl⟩
  obtain ⟨s, hs, hlast, hthreads, hcounter⟩ := hrun
  exact ⟨s, hs, hlast, hthreads, hcounter, delFinal_of_inOrder (.of_run hs)⟩

/-! ### Deletions that are undone -/

/-- The timer is deleted when the handler has begun, before it arms the timer again. -/
def deleteInHandler : List Act :=
  [.readStart, .advance 0, .advance 0, .advance 0, .advance 0, .expire, .readDel, .advance 1,
   .advance 1, .advance 1, .advance 0, .advance 0, .advance 0]

theorem not_delFinal_handler : ∃ s, Reach step (fun _ _ => True) State.initial s ∧ ¬DelFinal s := by
  have hrun : ∃ s, run step (fun _ _ => True) State.initial deleteInHandler = some s ∧
      s.lastRead = some .del ∧ s.threads = [] ∧ s.pending = true := ⟨_, rfl, rfl, rfl, rfl⟩
  obtain ⟨s, hs, hlast, hthreads, hpending⟩ := hrun
  refine ⟨s, .of_run hs, fun hfinal => ?_⟩
  have hnone : ∀ t, t ∉ s.threads := by simp [hthreads]
  have hoff := (hfinal hlast (fun t ht => absurd ht (hnone t)) fun t ht => absurd ht (hnone t)).1
  rw [hoff] at hpending
  cases hpending

/-- The calls that a handler has still to make. -/
def Thread.calls : Thread → ℕ
  | .timerHandler .modTimer => 3
  | .timerHandler .printk => 2
  | .timerHandler .ret => 1
  | _ => 0

def calls : List Thread → ℕ
  | [] => 0
  | t :: l => t.calls + calls l

theorem calls_resume {l : List Thread} {i : ℕ} {t : Thread} {o : Option Thread}
    (h : l[i]? = some t) : calls (resume l i o) + t.calls = calls l + calls o.toList := by
  induction l generalizing i with
  | nil => cases h
  | cons t' l ih =>
      cases i with
      | zero =>
          obtain rfl := Option.some.inj h
          cases o <;> simp [calls, resume] <;> omega
      | succ i =>
          have htail := ih h
          cases o <;> simp [calls, resume] at htail ⊢ <;> omega

/-- **Every other delete fails to be final**: the handlers have only to go on. -/
theorem exists_not_delFinal {ok : State → Act → Prop} {s : State}
    (h : Reach step ok State.initial s) (hlast : s.lastRead = some .del) (hstart : NoStart s)
    (hrearmed : s.rearmed = true) :
    ∃ s', Reach step (fun s a => ∃ i pc, a = .advance i ∧ s.threads[i]? = some (.timerHandler pc))
      s s' ∧ ¬DelFinal s' := by
  have hlive := (rearmed_iff h).1 hrearmed
  clear h hrearmed
  induction hn : calls s.threads using Nat.strongRecOn generalizing s with
  | ind n ih =>
      by_cases hhandler : NoHandler s
      · refine ⟨s, .start, fun hfinal => ?_⟩
        rcases hlive with hpending | hmem
        · rw [(hfinal hlast hstart hhandler).1] at hpending
          cases hpending
        · exact Bool.noConfusion (hhandler _ hmem)
      · have hthread : ∃ (i : ℕ) (pc : HandlerPc), s.threads[i]? = some (.timerHandler pc) := by
          by_contra hnone
          refine hhandler fun t ht => ?_
          obtain ⟨i, hi⟩ := List.mem_iff_getElem?.1 ht
          cases t with
          | timerHandler pc => exact absurd ⟨i, pc, hi⟩ hnone
          | timerStart pc | timerDel pc => rfl
        obtain ⟨i, pc, ht⟩ := hthread
        have hstep : step s (.advance i) = some (s.advance i (.timerHandler pc)) := by
          simp [step, ht]
        have hcalls : calls (s.advance i (.timerHandler pc)).threads < n := by
          have hsum := calls_resume (o := (Thread.timerHandler pc).next) ht
          rw [State.advance_threads]
          cases pc <;> simp [calls, Thread.next, Thread.calls] at hsum hn ⊢ <;> omega
        have hlast' : (s.advance i (.timerHandler pc)).lastRead = some .del := by
          cases pc <;> exact hlast
        have hstart' : NoStart (s.advance i (.timerHandler pc)) := by
          intro t' ht'
          rcases mem_of_mem_resume ht' with ht' | hnext
          · exact hstart t' ht'
          · cases pc <;> cases hnext <;> rfl
        have hlive' : Live (s.advance i (.timerHandler pc)) := by
          cases pc with
          | modTimer => exact .inl rfl
          | printk | ret => exact (live_advance ht (by simp) rfl).2 hlive
        obtain ⟨s', hreach, hnot⟩ := ih _ hcalls hlast' hstart' hlive' rfl
        exact ⟨s', (Reach.start.next ⟨i, pc, rfl, ht⟩ hstep).trans hreach, hnot⟩

end ZzzloopTimer
