import Mathlib.Data.List.FinRange
import Mathlib.Logic.Function.Basic
import Mathlib.Tactic.FinCases
import RapidLlm.Lib.Run
import RapidLlm.Engine.DataParallel

/-!
# RapidLlm.Engine.DpLockstep

**DP-attention replicas in their event loops** (`Scheduler.run_event_loop` with
`enable_dp_attention`, `engine/scheduler.py`). Each iteration of a loop coordinates twice:
whether anybody is active, and how many forwards the busiest replica needs. A round answers when
every replica has entered it, so a replica is at most one round ahead of any other
(`InStep.ahead`), and they agree on what each round is about and on the forwards that follow it
(`run_inStep`).

Leaving the loop is decided by each replica on its own. The rounds stay complete in the runs
where they decide alike (`run_lockstep`).

What a scheduler computes is a parameter: any `Workload`. Time is not modelled: a poll that
waits and one that does not both find a command or find none.
-/

namespace RapidLlm.DpLockstep

/-- What `coordinate_forward_count_across_dp` is called for. -/
inductive Round
  | activity
  | forwardCount
  deriving DecidableEq, Repr

/-- A round that a replica entered: what for, the count it brought, and whether its loop was
`stopping` by then. -/
structure Entry where
  round : Round
  count : Nat
  stopping : Bool
  deriving DecidableEq, Repr

/-- Where in its loop a replica is. -/
inductive Phase
  | polling
  | draining
  | inActivity
  | planning
  | inForwardCount (work : Nat)
  /-- Out of the loop: by its parent's death, or by a shutdown. -/
  | left (orphaned : Bool)
  deriving DecidableEq, Repr

/-- A scheduler, as far as its loop reads it. -/
structure Workload (σ : Type) where
  /-- `has_unfinished_requests`. -/
  active : σ → Bool
  apply : σ → Command → σ → Prop
  /-- A step up to its passes: how many there are. -/
  plan : σ → Nat → σ → Prop
  /-- The rest of the step. -/
  harvest : σ → σ → Prop

structure Replica (σ : Type) where
  scheduler : σ
  /-- What its command queue holds. -/
  queue : List Command := []
  stopping : Bool := false
  phase : Phase := .polling
  /-- The rounds it has entered. -/
  entered : List Entry := []
  /-- For each round that has answered it, the forwards it ran before the next. -/
  ran : List Nat := []

/-- The replicas, and the commands on their way to them. -/
structure DpGroup (σ : Type) (n : Nat) where
  replicas : Fin n → Replica σ
  channels : Fin n → List Command

/-- One forward of a step: of a pass of its own, or `execute_dummy`. -/
inductive Forward
  | pass (index : Nat)
  | dummy
  deriving DecidableEq, Repr

/-- `_execute_lockstep`: its own passes, and inert forwards up to the target. -/
def executeLockstep (work target : Nat) : List Forward :=
  (List.range target).map fun index => if work ≤ index then .dummy else .pass index

variable {σ : Type} {n : Nat}

/-- The commands that the controller puts on every queue. -/
def broadcast : Command → Bool
  | .utility _ _ => true
  | .wake => true
  | .shutdown => true
  | _ => false

/-- The commands that it routes to one replica. -/
def routed : Command → Bool
  | .add _ => true
  | .addBatch _ => true
  | .abort _ => true
  | _ => false

def isShutdown : Command → Bool
  | .shutdown => true
  | _ => false

namespace Replica

variable (r : Replica σ)

def enter (round : Round) (count : Nat) : Replica σ :=
  { r with entered := r.entered ++ [⟨round, count, r.stopping⟩] }

/-- `coordinate_forward_count_across_dp(int(local_active))`. -/
def enterActivity (w : Workload σ) : Replica σ :=
  { r.enter .activity (w.active r.scheduler).toNat with phase := .inActivity }

/-- What a replica does with the answer: leave, poll again, or step. -/
def afterActivity (answer : Nat) : Replica σ :=
  { r with
    ran := r.ran ++ [0]
    phase := if r.stopping ∧ ¬ 0 < answer then .left false
      else if ¬ 0 < answer then .polling else .planning }

end Replica

namespace DpGroup

variable (g : DpGroup σ n)

def entered (i : Fin n) : List Entry := (g.replicas i).entered

/-- Every replica has entered round `k`. -/
def Complete (k : Nat) : Prop := ∀ i, k < (g.entered i).length

/-- What round `k` answers: the largest count any replica brought. -/
def answer (k : Nat) : Nat :=
  ((List.finRange n).map fun i => (g.entered i)[k]?.elim 0 Entry.count).foldl max 0

def setReplica (i : Fin n) (r : Replica σ) : DpGroup σ n :=
  { g with replicas := Function.update g.replicas i r }

def setChannel (i : Fin n) (commands : List Command) : DpGroup σ n :=
  { g with channels := Function.update g.channels i commands }

end DpGroup

/-- One thing that happens. -/
inductive Event (n : Nat)
  /-- The controller sends a command to every replica, or to one. -/
  | broadcast (command : Command)
  | route (i : Fin n) (command : Command)
  /-- A queue gets its next command. -/
  | arrive (i : Fin n)
  /-- A replica takes a command, finds none, or has none left to take. -/
  | take (i : Fin n)
  | empty (i : Fin n) (orphaned : Bool)
  | taken (i : Fin n)
  /-- A replica gets the answer of its round. -/
  | activity (i : Fin n)
  | plan (i : Fin n)
  | forwardCount (i : Fin n)

inductive Step (w : Workload σ) : DpGroup σ n → Event n → DpGroup σ n → Prop
  | broadcast {g : DpGroup σ n} {command : Command} (h : broadcast command) :
      Step w g (.broadcast command) { g with channels := fun i => g.channels i ++ [command] }
  | route {g : DpGroup σ n} {i : Fin n} {command : Command} (h : routed command) :
      Step w g (.route i command) (g.setChannel i (g.channels i ++ [command]))
  | arrive {g : DpGroup σ n} {i : Fin n} {command : Command} {rest : List Command}
      (h : g.channels i = command :: rest) :
      Step w g (.arrive i) ((g.setChannel i rest).setReplica i
        { g.replicas i with queue := (g.replicas i).queue ++ [command] })
  | take {g : DpGroup σ n} {i : Fin n} {command : Command} {rest : List Command} {scheduler : σ}
      (hphase : (g.replicas i).phase = .polling ∨ (g.replicas i).phase = .draining)
      (hstopping : (g.replicas i).stopping = false)
      (hqueue : (g.replicas i).queue = command :: rest)
      (happly : w.apply (g.replicas i).scheduler command scheduler) :
      Step w g (.take i) (g.setReplica i
        { g.replicas i with
          scheduler := scheduler
          queue := rest
          stopping := isShutdown command
          phase := .draining })
  /-- `queue.Empty` on the first poll, which is also where a loop looks for its parent. -/
  | orphaned {g : DpGroup σ n} {i : Fin n} (hphase : (g.replicas i).phase = .polling)
      (hstopping : (g.replicas i).stopping = false) (hqueue : (g.replicas i).queue = []) :
      Step w g (.empty i true) (g.setReplica i { g.replicas i with phase := .left true })
  | empty {g : DpGroup σ n} {i : Fin n} (hphase : (g.replicas i).phase = .polling)
      (hstopping : (g.replicas i).stopping = false) (hqueue : (g.replicas i).queue = []) :
      Step w g (.empty i false) (g.setReplica i ((g.replicas i).enterActivity w))
  /-- A loop that is stopping takes no more commands. -/
  | taken {g : DpGroup σ n} {i : Fin n}
      (h : ((g.replicas i).stopping = true ∧
          ((g.replicas i).phase = .polling ∨ (g.replicas i).phase = .draining)) ∨
        ((g.replicas i).phase = .draining ∧ (g.replicas i).queue = [])) :
      Step w g (.taken i) (g.setReplica i ((g.replicas i).enterActivity w))
  | activity {g : DpGroup σ n} {i : Fin n} {k : Nat} (hphase : (g.replicas i).phase = .inActivity)
      (hround : (g.entered i).length = k + 1) (hcomplete : g.Complete k) :
      Step w g (.activity i) (g.setReplica i ((g.replicas i).afterActivity (g.answer k)))
  | plan {g : DpGroup σ n} {i : Fin n} {work : Nat} {scheduler : σ}
      (hphase : (g.replicas i).phase = .planning)
      (hplan : w.plan (g.replicas i).scheduler work scheduler) :
      Step w g (.plan i) (g.setReplica i
        { (g.replicas i).enter .forwardCount work with
          scheduler := scheduler
          phase := .inForwardCount work })
  | forwardCount {g : DpGroup σ n} {i : Fin n} {work k : Nat} {scheduler : σ}
      (hphase : (g.replicas i).phase = .inForwardCount work)
      (hround : (g.entered i).length = k + 1) (hcomplete : g.Complete k)
      (hharvest : w.harvest (g.replicas i).scheduler scheduler) :
      Step w g (.forwardCount i) (g.setReplica i
        { g.replicas i with
          scheduler := scheduler
          ran := (g.replicas i).ran ++ [(executeLockstep work (g.answer k)).length]
          phase := .polling })

/-- The loops before their first iteration. -/
def initial (scheduler : Fin n → σ) : DpGroup σ n where
  replicas i := { scheduler := scheduler i }
  channels _ := []

/-! ### Answered rounds stay as they are -/

namespace DpGroup

variable {g g' : DpGroup σ n} {i : Fin n} {k : Nat}

/-- What round `k` is about, given what the rounds before it answered. -/
def roundAt (g : DpGroup σ n) : Nat → Round
  | 0 => .activity
  | k + 1 => if g.roundAt k = .activity ∧ 0 < g.answer k then .forwardCount else .activity

/-- Replicas that only entered further rounds. -/
def Extends (g g' : DpGroup σ n) : Prop := ∀ i, g.entered i <+: g'.entered i

theorem Extends.get (h : g.Extends g') (hk : k < (g.entered i).length) :
    (g'.entered i)[k]? = (g.entered i)[k]? := by
  obtain ⟨more, hmore⟩ := h i
  rw [← hmore, List.getElem?_append_left hk]

theorem Extends.complete (h : g.Extends g') (hk : g.Complete k) : g'.Complete k := fun i =>
  (hk i).trans_le (h i).length_le

theorem Extends.answer (h : g.Extends g') (hk : g.Complete k) : g'.answer k = g.answer k := by
  rw [DpGroup.answer, DpGroup.answer]
  refine congrArg (List.foldl max 0) (List.map_congr_left fun i _ => ?_)
  rw [h.get (hk i)]

theorem Extends.roundAt (h : g.Extends g') :
    ∀ {k : Nat}, (∀ j < k, g.Complete j) → g'.roundAt k = g.roundAt k
  | 0, _ => rfl
  | k + 1, hk => by
      rw [DpGroup.roundAt, DpGroup.roundAt, h.answer (hk k (Nat.lt_succ_self k)),
        h.roundAt fun j hj => hk j (hj.trans (Nat.lt_succ_self k))]

@[simp] theorem setReplica_self (r : Replica σ) : (g.setReplica i r).replicas i = r :=
  Function.update_self ..

theorem setReplica_of_ne {j : Fin n} (h : j ≠ i) (r : Replica σ) :
    (g.setReplica i r).replicas j = g.replicas j :=
  Function.update_of_ne h ..

theorem entered_le_setReplica {r : Replica σ} {m : Nat}
    (h : r.entered = (g.replicas i).entered) (hle : ∀ j, (g.entered j).length ≤ m) (j : Fin n) :
    ((g.setReplica i r).entered j).length ≤ m := by
  refine Nat.le_trans (Nat.le_of_eq (congrArg List.length ?_)) (hle j)
  by_cases hj : j = i
  · subst hj
    rw [entered, entered, setReplica_self, h]
  · rw [entered, entered, setReplica_of_ne hj]

/-- A replica that keeps the rounds it has entered. -/
theorem extends_setReplica {r : Replica σ} (h : (g.replicas i).entered <+: r.entered) :
    g.Extends (g.setReplica i r) := by
  intro j
  by_cases hj : j = i
  · subst hj
    rw [entered, entered, setReplica_self]
    exact h
  · rw [entered, entered, setReplica_of_ne hj]

end DpGroup

/-! ### Replicas follow the rounds -/

/-- What the next round of a replica, or the one it waits in, is about. -/
def Phase.expects : Phase → Round
  | .planning => .forwardCount
  | .inForwardCount _ => .forwardCount
  | _ => .activity

def Phase.waits : Phase → Bool
  | .inActivity => true
  | .inForwardCount _ => true
  | _ => false

/-- A replica that went through the rounds of its group. -/
structure Follows (g : DpGroup σ n) (r : Replica σ) : Prop where
  complete : ∀ k < r.ran.length, g.Complete k
  length_eq : r.entered.length = r.ran.length + r.phase.waits.toNat
  expects_eq : g.roundAt r.ran.length = r.phase.expects
  rounds : ∀ k e, r.entered[k]? = some e → e.round = g.roundAt k
  ran_eq : ∀ k m, r.ran[k]? = some m → m = if g.roundAt k = .activity then 0 else g.answer k
  flag : r.phase = .inActivity → r.entered[r.ran.length]?.map Entry.stopping = some r.stopping
  /-- It left the first idle round that it was stopping in. -/
  leaves : ∀ k e, k < r.ran.length → r.entered[k]? = some e → g.roundAt k = .activity →
    g.answer k = 0 → e.stopping = true → r.phase = .left false ∧ r.entered.length = k + 1

def InStep (g : DpGroup σ n) : Prop := ∀ i, Follows g (g.replicas i)

variable {w : Workload σ} {g g' : DpGroup σ n} {r : Replica σ}

/-- What a replica went through does not change when others go on. -/
theorem Follows.extends (h : Follows g r) (hext : g.Extends g') : Follows g' r := by
  have hround : ∀ k ≤ r.ran.length, g'.roundAt k = g.roundAt k := fun k hk =>
    hext.roundAt fun j hj => h.complete j (hj.trans_le hk)
  have hle : r.entered.length ≤ r.ran.length + 1 := by
    rw [h.length_eq]
    exact Nat.add_le_add_left (Bool.toNat_le _) _
  refine ⟨fun k hk => hext.complete (h.complete k hk), h.length_eq, ?_, fun k e hk => ?_,
    fun k m hk => ?_, h.flag, fun k e hk he hactivity hanswer => ?_⟩
  · rw [hround _ le_rfl]
    exact h.expects_eq
  · obtain ⟨hlt, -⟩ := List.getElem?_eq_some_iff.mp hk
    rw [hround k (by omega)]
    exact h.rounds k e hk
  · obtain ⟨hlt, -⟩ := List.getElem?_eq_some_iff.mp hk
    rw [hround k hlt.le, hext.answer (h.complete k hlt)]
    exact h.ran_eq k m hk
  · rw [hround k hk.le] at hactivity
    rw [hext.answer (h.complete k hk)] at hanswer
    exact h.leaves k e hk he hactivity hanswer

/-- One replica moves on, the others stay. -/
theorem InStep.setReplica {i : Fin n} (h : InStep g)
    (hext : (g.replicas i).entered <+: r.entered) (hr : Follows g r) :
    InStep (g.setReplica i r) := by
  intro j
  by_cases hj : j = i
  · subst hj
    rw [DpGroup.setReplica_self]
    exact hr.extends (DpGroup.extends_setReplica hext)
  · rw [DpGroup.setReplica_of_ne hj]
    exact (h j).extends (DpGroup.extends_setReplica hext)

/-! ### One event -/

section Moves

variable {r' : Replica σ} (h : Follows g r)

include h

/-- Between two rounds. -/
theorem Follows.moves (hentered : r'.entered = r.entered) (hran : r'.ran = r.ran)
    (hwaits : r'.phase.waits = r.phase.waits) (hexpects : r'.phase.expects = r.phase.expects)
    (hflag : r'.phase = .inActivity → r.phase = .inActivity ∧ r'.stopping = r.stopping)
    (hleft : r.phase = .left false → r'.phase = .left false) : Follows g r' := by
  refine ⟨?_, ?_, ?_, ?_, ?_, fun hphase => ?_, fun k e hk he hactivity hanswer hstop => ?_⟩
  · rw [hran]
    exact h.complete
  · rw [hentered, hran, hwaits]
    exact h.length_eq
  · rw [hran, hexpects]
    exact h.expects_eq
  · rw [hentered]
    exact h.rounds
  · rw [hran]
    exact h.ran_eq
  · obtain ⟨hold, hstopping⟩ := hflag hphase
    rw [hentered, hran, hstopping]
    exact h.flag hold
  · rw [hran] at hk
    rw [hentered] at he ⊢
    obtain ⟨hphase, hlast⟩ := h.leaves k e hk he hactivity hanswer hstop
    exact ⟨hleft hphase, hlast⟩

/-- Into the next round. -/
theorem Follows.enters {e : Entry} (hentered : r'.entered = r.entered ++ [e])
    (hran : r'.ran = r.ran) (hidle : r.phase.waits = false) (hleft : r.phase ≠ .left false)
    (hwaits : r'.phase.waits = true) (hexpects : r'.phase.expects = r.phase.expects)
    (hround : e.round = r.phase.expects) (hstop : e.stopping = r'.stopping) : Follows g r' := by
  have hlen : r.entered.length = r.ran.length := by
    rw [h.length_eq, hidle]
    rfl
  have hlast : r'.entered[r.ran.length]? = some e := by
    rw [hentered, ← hlen, List.getElem?_concat_length]
  have hbefore : ∀ k < r.ran.length, r'.entered[k]? = r.entered[k]? := fun k hk => by
    rw [hentered, List.getElem?_append_left (by omega)]
  refine ⟨?_, ?_, ?_, fun k e' hk => ?_, ?_, fun _ => ?_,
    fun k e' hk he hactivity hanswer hstop => ?_⟩
  · rw [hran]
    exact h.complete
  · rw [hentered, List.length_append, hlen, hran, hwaits]
    rfl
  · rw [hran, hexpects]
    exact h.expects_eq
  · rcases Nat.lt_or_ge k r.ran.length with hlt | hge
    · exact h.rounds k e' ((hbefore k hlt).symm.trans hk)
    · obtain ⟨hkLen, -⟩ := List.getElem?_eq_some_iff.mp hk
      rw [hentered, List.length_append, hlen, List.length_singleton] at hkLen
      obtain rfl : k = r.ran.length := by omega
      obtain rfl := Option.some.inj (hlast.symm.trans hk)
      rw [hround, h.expects_eq]
  · rw [hran]
    exact h.ran_eq
  · rw [hran, hlast, Option.map_some, hstop]
  · rw [hran] at hk
    rw [hbefore k hk] at he
    exact absurd (h.leaves k e' hk he hactivity hanswer hstop).1 hleft

/-- Out of the round it waits in. -/
theorem Follows.gets {m : Nat} (hentered : r'.entered = r.entered) (hran : r'.ran = r.ran ++ [m])
    (hwaiting : r.phase.waits = true) (hcomplete : g.Complete r.ran.length)
    (hm : m = if g.roundAt r.ran.length = .activity then 0 else g.answer r.ran.length)
    (hwaits : r'.phase.waits = false) (hexpects : g.roundAt (r.ran.length + 1) = r'.phase.expects)
    (hleaves : ∀ e, r.entered[r.ran.length]? = some e → g.roundAt r.ran.length = .activity →
      g.answer r.ran.length = 0 → e.stopping = true → r'.phase = .left false) : Follows g r' := by
  have hlen : r.entered.length = r.ran.length + 1 := by
    rw [h.length_eq, hwaiting]
    rfl
  have hranLen : r'.ran.length = r.ran.length + 1 := by rw [hran, List.length_append]; rfl
  refine ⟨fun k hk => ?_, ?_, ?_, ?_, fun k m' hk => ?_, fun hphase => ?_,
    fun k e hk he hactivity hanswer hstop => ?_⟩
  · rcases Nat.lt_or_ge k r.ran.length with hlt | hge
    · exact h.complete k hlt
    · obtain rfl : k = r.ran.length := by omega
      exact hcomplete
  · rw [hentered, hlen, hranLen, hwaits]
    rfl
  · rw [hranLen]
    exact hexpects
  · rw [hentered]
    exact h.rounds
  · rcases Nat.lt_or_ge k r.ran.length with hlt | hge
    · rw [hran, List.getElem?_append_left hlt] at hk
      exact h.ran_eq k m' hk
    · obtain ⟨hkLen, -⟩ := List.getElem?_eq_some_iff.mp hk
      obtain rfl : k = r.ran.length := by omega
      rw [hran, List.getElem?_concat_length] at hk
      exact (Option.some.inj hk).symm.trans hm
  · rw [hphase] at hwaits
    exact absurd hwaits (by decide)
  · rw [hentered] at he ⊢
    rcases Nat.lt_or_ge k r.ran.length with hlt | hge
    · obtain ⟨-, hlast⟩ := h.leaves k e hlt he hactivity hanswer hstop
      omega
    · obtain rfl : k = r.ran.length := by omega
      exact ⟨hleaves e he hactivity hanswer hstop, hlen⟩

end Moves

@[simp] theorem executeLockstep_length (work target : Nat) :
    (executeLockstep work target).length = target := by
  rw [executeLockstep, List.length_map, List.length_range]

theorem Follows.enterActivity (h : Follows g r) (hphase : r.phase = .polling ∨ r.phase = .draining) :
    Follows g (r.enterActivity w) := by
  have hexpects : r.phase.expects = .activity := by
    rcases hphase with hphase | hphase <;> rw [hphase] <;> rfl
  refine h.enters rfl rfl ?_ ?_ rfl hexpects.symm hexpects.symm rfl
  · rcases hphase with hphase | hphase <;> rw [hphase] <;> rfl
  · rcases hphase with hphase | hphase <;> rw [hphase] <;> decide

theorem Follows.afterActivity {k : Nat} (h : Follows g r) (hphase : r.phase = .inActivity)
    (hround : r.entered.length = k + 1) (hcomplete : g.Complete k) :
    Follows g (r.afterActivity (g.answer k)) := by
  have hlen := h.length_eq
  rw [hphase, hround] at hlen
  obtain rfl : k = r.ran.length := Nat.succ_injective hlen
  have hactivity : g.roundAt r.ran.length = .activity := by
    rw [h.expects_eq, hphase]
    rfl
  refine h.gets rfl rfl (by rw [hphase]; rfl) hcomplete (if_pos hactivity).symm ?_ ?_ ?_
  · simp only [Replica.afterActivity]
    split
    · rfl
    · split <;> rfl
  · rw [DpGroup.roundAt]
    simp only [hactivity, true_and, Replica.afterActivity]
    by_cases hanswer : 0 < g.answer r.ran.length
    · simp [hanswer, Phase.expects]
    · by_cases hstop : r.stopping = true <;> simp [hanswer, hstop, Phase.expects]
  · intro e he _ hanswer hstop
    have hflag := h.flag hphase
    rw [he, Option.map_some, hstop] at hflag
    exact if_pos ⟨(Option.some.inj hflag).symm, by omega⟩

theorem Follows.afterForwards {k work : Nat} {scheduler : σ} (h : Follows g r)
    (hphase : r.phase = .inForwardCount work) (hround : r.entered.length = k + 1)
    (hcomplete : g.Complete k) :
    Follows g { r with
      scheduler := scheduler
      ran := r.ran ++ [(executeLockstep work (g.answer k)).length]
      phase := .polling } := by
  have hlen := h.length_eq
  rw [hphase, hround] at hlen
  obtain rfl : k = r.ran.length := Nat.succ_injective hlen
  have hforwards : g.roundAt r.ran.length ≠ .activity := by
    rw [h.expects_eq, hphase]
    nofun
  refine h.gets rfl rfl (by rw [hphase]; rfl) hcomplete ?_ rfl ?_ fun _ _ hactivity =>
    absurd hactivity hforwards
  · rw [if_neg hforwards, executeLockstep_length]
  · rw [DpGroup.roundAt, if_neg fun hboth => hforwards hboth.1]
    rfl

/-- **One event.** Whatever happens, and in whatever order, every replica goes through the rounds
of the group. -/
theorem InStep.step {event : Event n} (h : InStep g) (hstep : Step w g event g') : InStep g' := by
  have hchannels : ∀ channels, InStep { g with channels } := fun channels i =>
    (h i).extends fun _ => List.prefix_refl _
  cases hstep with
  | broadcast _ => exact hchannels _
  | route _ => exact hchannels _
  | @arrive i command rest _ =>
    have hr := hchannels (Function.update g.channels i rest) i
    exact InStep.setReplica (hchannels _) (List.prefix_refl _)
      (hr.moves rfl rfl rfl rfl (fun hphase => ⟨hphase, rfl⟩) fun hleft => hleft)
  | @take i command rest scheduler hphase hstopping hqueue happly =>
    refine h.setReplica (List.prefix_refl _) ((h i).moves rfl rfl ?_ ?_ nofun ?_)
    all_goals rcases hphase with hphase | hphase <;> rw [hphase]
    all_goals first | rfl | nofun
  | @orphaned i hphase hstopping hqueue =>
    refine h.setReplica (List.prefix_refl _) ((h i).moves rfl rfl ?_ ?_ nofun ?_)
    all_goals rw [hphase]
    all_goals first | rfl | nofun
  | @empty i hphase hstopping hqueue =>
    exact h.setReplica (List.prefix_append _ _) ((h i).enterActivity (.inl hphase))
  | @taken i hwhen =>
    refine h.setReplica (List.prefix_append _ _) ((h i).enterActivity ?_)
    rcases hwhen with ⟨-, hphase⟩ | ⟨hphase, -⟩
    · exact hphase
    · exact .inr hphase
  | @activity i k hphase hround hcomplete =>
    exact h.setReplica (List.prefix_refl _) ((h i).afterActivity hphase hround hcomplete)
  | @plan i work scheduler hphase hplan =>
    refine h.setReplica (List.prefix_append _ _) ((h i).enters rfl rfl ?_ ?_ rfl ?_ ?_ rfl)
    all_goals rw [hphase]
    all_goals first | rfl | nofun
  | @forwardCount i work k scheduler hphase hround hcomplete hharvest =>
    exact h.setReplica (List.prefix_refl _) ((h i).afterForwards hphase hround hcomplete)

theorem inStep_initial (scheduler : Fin n → σ) : InStep (initial scheduler) := fun _ =>
  { complete := fun _ hk => absurd hk (Nat.not_lt_zero _)
    length_eq := rfl
    expects_eq := rfl
    rounds := nofun
    ran_eq := nofun
    flag := nofun
    leaves := fun _ _ hk => absurd hk (Nat.not_lt_zero _) }

/-! ### Leaving the loop -/

/-- In an idle round, either every replica is stopping or none is. -/
def StoppingAlike (g : DpGroup σ n) (k : Nat) : Prop :=
  g.answer k = 0 → ∀ i j e e', (g.entered i)[k]? = some e → (g.entered j)[k]? = some e' →
    e.stopping = e'.stopping

/-- The replicas decide alike: on a shutdown in the round that answers, and on their parent's
death in the iteration whose round they are about to enter or skip. -/
def Unanimous (g : DpGroup σ n) : Event n → Prop
  | .activity i => ∀ k, (g.entered i).length = k + 1 → StoppingAlike g k
  | .empty i true => ∀ j, (g.entered j).length ≤ (g.entered i).length
  | .empty i false => ∀ j, (g.replicas j).phase = .left true →
      (g.entered i).length < (g.entered j).length
  | .taken i => ∀ j, (g.replicas j).phase = .left true →
      (g.entered i).length < (g.entered j).length
  | _ => True

/-- What is left behind by a replica that is out of its loop. -/
structure Departed (g : DpGroup σ n) (r : Replica σ) : Prop where
  shutdown : r.phase = .left false → ∃ k, r.entered.length = k + 1 ∧ g.Complete k ∧
    g.roundAt k = .activity ∧ g.answer k = 0 ∧
      ∀ i e, (g.entered i)[k]? = some e → e.stopping = true
  orphaned : r.phase = .left true → ∀ i, (g.entered i).length ≤ r.entered.length

/-- **Complete rounds.** No replica entered a round that a replica out of its loop did not
enter, and nobody got past a round that not everybody entered. The replicas agree on what each
round is about, and on the forwards that followed it. -/
structure RoundsComplete (g : DpGroup σ n) : Prop where
  together : ∀ (i j : Fin n) (orphaned : Bool), (g.replicas j).phase = .left orphaned →
    (g.entered i).length ≤ (g.entered j).length
  entered : ∀ i j : Fin n, (g.replicas i).ran.length ≤ (g.entered j).length
  rounds : ∀ (i j : Fin n) (k : Nat) (e e' : Entry), (g.entered i)[k]? = some e →
    (g.entered j)[k]? = some e' → e.round = e'.round
  forwards : ∀ (i j : Fin n) (k m m' : Nat), (g.replicas i).ran[k]? = some m →
    (g.replicas j).ran[k]? = some m' → m = m'

/-- A replica that shut down did so in the last round anybody entered. -/
theorem InStep.last (h : InStep g) (hr : Departed g r) (hphase : r.phase = .left false)
    (i : Fin n) : (g.entered i).length ≤ r.entered.length := by
  obtain ⟨k, hlen, hcomplete, hround, hanswer, hstop⟩ := hr.shutdown hphase
  by_contra hlt
  have hi := (h i).length_eq
  have hwaits := Bool.toNat_le (g.replicas i).phase.waits
  have hk : k < (g.replicas i).ran.length := by
    unfold DpGroup.entered at hlt
    omega
  have hget := List.getElem?_eq_getElem (hcomplete i)
  have hlast := ((h i).leaves k _ hk hget hround hanswer (hstop i _ hget)).2
  unfold DpGroup.entered at hlt
  omega

theorem InStep.complete (h : InStep g) (hdeparted : ∀ i, Departed g (g.replicas i)) :
    RoundsComplete g where
  together i j orphaned hphase := by
    cases orphaned with
    | false => exact h.last (hdeparted j) hphase i
    | true => exact (hdeparted j).orphaned hphase i
  entered i j := by
    by_contra hlt
    exact absurd ((h i).complete _ (Nat.lt_of_not_le hlt) j) (Nat.lt_irrefl _)
  rounds i j k e e' he he' := ((h i).rounds k e he).trans ((h j).rounds k e' he').symm
  forwards i j k m m' hm hm' := ((h i).ran_eq k m hm).trans ((h j).ran_eq k m' hm').symm

/-- A replica out of its loop waits in no round. -/
theorem Follows.left_length {orphaned : Bool} (h : Follows g r) (hphase : r.phase = .left orphaned) :
    r.entered.length = r.ran.length := by
  rw [h.length_eq, hphase]
  rfl

/-- What a departed replica left behind, when others enter further rounds. -/
theorem Departed.extends (h : Departed g r) (hf : Follows g r) (hext : g.Extends g')
    (hroom : r.phase = .left true → ∀ i, (g'.entered i).length ≤ r.entered.length) :
    Departed g' r where
  shutdown hphase := by
    obtain ⟨k, hlen, hk, hround, hanswer, hstop⟩ := h.shutdown hphase
    have hran := hf.left_length hphase
    refine ⟨k, hlen, hext.complete hk, ?_, ?_, fun i e he => hstop i e ?_⟩
    · rw [hext.roundAt fun j hj => hf.complete j (by omega), hround]
    · rw [hext.answer hk, hanswer]
    · rwa [hext.get (hk i)] at he
  orphaned := hroom

section Departures

variable {i : Fin n} (h : InStep g) (hdeparted : ∀ i, Departed g (g.replicas i))

include h hdeparted

/-- One replica moves on, and enters no round that an orphaned one has skipped. -/
theorem InStep.departs (hext : (g.replicas i).entered <+: r.entered)
    (hroom : ∀ j, (g.replicas j).phase = .left true → r.entered.length ≤ (g.entered j).length)
    (hr : Departed (g.setReplica i r) r) (j : Fin n) :
    Departed (g.setReplica i r) ((g.setReplica i r).replicas j) := by
  by_cases hj : j = i
  · subst hj
    rwa [DpGroup.setReplica_self]
  · rw [DpGroup.setReplica_of_ne hj]
    refine (hdeparted j).extends (h j) (DpGroup.extends_setReplica hext) fun hphase k => ?_
    by_cases hk : k = i
    · subst hk
      rw [DpGroup.entered, DpGroup.setReplica_self]
      exact hroom j hphase
    · rw [DpGroup.entered, DpGroup.setReplica_of_ne hk]
      exact (hdeparted j).orphaned hphase k

/-- A replica that stays in its loop and enters no round. -/
theorem InStep.stays (hentered : r.entered = (g.replicas i).entered)
    (hleft : ∀ orphaned, r.phase ≠ .left orphaned) (j : Fin n) :
    Departed (g.setReplica i r) ((g.setReplica i r).replicas j) := by
  refine h.departs hdeparted (by rw [hentered]) (fun j hphase => ?_)
    ⟨fun hphase => absurd hphase (hleft _), fun hphase => absurd hphase (hleft _)⟩ j
  rw [hentered]
  exact (hdeparted j).orphaned hphase i

/-- A replica that enters a round. -/
theorem InStep.enters {e : Entry} (hentered : r.entered = (g.replicas i).entered ++ [e])
    (hleft : ∀ orphaned, r.phase ≠ .left orphaned)
    (hroom : ∀ j, (g.replicas j).phase = .left true →
      (g.entered i).length < (g.entered j).length) (j : Fin n) :
    Departed (g.setReplica i r) ((g.setReplica i r).replicas j) := by
  refine h.departs hdeparted (by rw [hentered]; exact List.prefix_append _ _)
    (fun j hphase => ?_)
    ⟨fun hphase => absurd hphase (hleft _), fun hphase => absurd hphase (hleft _)⟩ j
  rw [hentered, List.length_append]
  exact hroom j hphase

/-- A replica that is about to step has not got as far as one that skipped an activity round. -/
theorem InStep.planning_lt (hphase : (g.replicas i).phase = .planning) {j : Fin n}
    (hleft : (g.replicas j).phase = .left true) : (g.entered i).length < (g.entered j).length := by
  have hle := (hdeparted j).orphaned hleft i
  have hlen := (h i).length_eq
  rw [hphase] at hlen
  have hexpects := (h i).expects_eq
  rw [hphase, ← Nat.add_zero (g.replicas i).ran.length] at hexpects
  refine lt_of_le_of_ne hle fun heq => ?_
  have hsame : (g.replicas i).ran.length + 0 = (g.replicas j).ran.length :=
    hlen.symm.trans (heq.trans ((h j).left_length hleft))
  have hother := (h j).expects_eq
  rw [hleft, ← hsame, hexpects] at hother
  cases hother

omit hdeparted in
/-- A replica that shuts down in an idle round in which all are stopping. -/
theorem InStep.shuts_down {k : Nat} (hphase : (g.replicas i).phase = .inActivity)
    (hround : (g.entered i).length = k + 1) (hcomplete : g.Complete k)
    (hstop : (g.replicas i).stopping = true) (hanswer : g.answer k = 0) (halike : StoppingAlike g k) :
    Departed g ((g.replicas i).afterActivity (g.answer k)) := by
  have hlen := (h i).length_eq
  rw [hphase] at hlen
  obtain rfl : k = (g.replicas i).ran.length := Nat.succ_injective (hround.symm.trans hlen)
  have hactivity := (h i).expects_eq
  rw [hphase] at hactivity
  have hget := List.getElem?_eq_getElem (hcomplete i)
  have hflag := (h i).flag hphase
  rw [show (g.replicas i).entered[(g.replicas i).ran.length]? = _ from hget, Option.map_some,
    hstop] at hflag
  refine ⟨fun _ => ⟨_, hround, hcomplete, hactivity, hanswer, fun j e he => ?_⟩, fun hleft => ?_⟩
  · rw [halike hanswer j i e _ he hget]
    exact Option.some.inj hflag
  · simp only [Replica.afterActivity, hanswer, hstop, Nat.lt_irrefl, not_false_eq_true, and_self,
      if_true] at hleft
    cases hleft

/-- **One event** in which the replicas decide alike. -/
theorem InStep.departed_step {event : Event n} (hstep : Step w g event g')
    (hguard : Unanimous g event) : ∀ j, Departed g' (g'.replicas j) := by
  have hchannels : ∀ channels j, Departed { g with channels } (g.replicas j) := fun channels j =>
    (hdeparted j).extends (h j) (fun _ => List.prefix_refl _) (hdeparted j).orphaned
  cases hstep with
  | broadcast _ => exact hchannels _
  | route _ => exact hchannels _
  | @arrive i command rest _ =>
    have hin : InStep (g.setChannel i rest) := fun j => (h j).extends fun _ => List.prefix_refl _
    refine hin.departs (hchannels _) (List.prefix_refl _)
      (fun j hphase => (hdeparted j).orphaned hphase i) ?_
    have hi := (hchannels (Function.update g.channels i rest) i).extends (hin i)
      (DpGroup.extends_setReplica (g := g.setChannel i rest) (i := i) (r := { g.replicas i with
        queue := (g.replicas i).queue ++ [command] }) (List.prefix_refl _)) fun hphase =>
          DpGroup.entered_le_setReplica rfl ((hdeparted i).orphaned hphase)
    exact ⟨hi.shutdown, hi.orphaned⟩
  | @take i command rest scheduler hphase hstopping hqueue happly =>
    exact h.stays hdeparted rfl nofun
  | @orphaned i hphase hstopping hqueue =>
    refine h.departs hdeparted (List.prefix_refl _)
      (fun j hphase => (hdeparted j).orphaned hphase i) ⟨nofun, fun _ => ?_⟩
    exact DpGroup.entered_le_setReplica rfl hguard
  | @empty i hphase hstopping hqueue => exact h.enters hdeparted rfl nofun hguard
  | @taken i hwhen => exact h.enters hdeparted rfl nofun hguard
  | @activity i k hphase hround hcomplete =>
    by_cases hleaves : (g.replicas i).stopping = true ∧ g.answer k = 0
    · have hi := h.shuts_down hphase hround hcomplete hleaves.1 hleaves.2
        (hguard k hround)
      refine h.departs hdeparted (List.prefix_refl _)
        (fun j hphase => (hdeparted j).orphaned hphase i) ?_
      refine hi.extends ((h i).afterActivity hphase hround hcomplete)
        (DpGroup.extends_setReplica (List.prefix_refl _)) fun hleft => ?_
      exact DpGroup.entered_le_setReplica rfl (hi.orphaned hleft)
    · refine h.stays hdeparted rfl fun orphaned => ?_
      simp only [Replica.afterActivity, Nat.pos_iff_ne_zero, not_not, if_neg hleaves]
      split <;> nofun
  | @plan i work scheduler hphase hplan =>
    exact h.enters hdeparted rfl nofun fun j hleft => h.planning_lt hdeparted hphase hleft
  | @forwardCount i work k scheduler hphase hround hcomplete hharvest =>
    exact h.stays hdeparted rfl nofun

end Departures

/-- **Lockstep.** In every run whose replicas decide alike when to leave, the rounds are complete:
none is entered without a replica that has left its loop, and the forwards between two rounds
are as many on all. -/
theorem run_lockstep {scheduler : Fin n → σ} {events : List (Event n)}
    (hrun : Run (Guarded (Step w) Unanimous) (initial scheduler) events g) : RoundsComplete g := by
  have hinv : InStep g ∧ ∀ i, Departed g (g.replicas i) := by
    refine hrun.invariant (I := fun g => InStep g ∧ ∀ i, Departed g (g.replicas i)) ?_
      ⟨inStep_initial scheduler, fun _ => ⟨nofun, nofun⟩⟩
    exact fun g event g' hg hstep =>
      ⟨hg.1.step hstep.1, hg.1.departed_step hg.2 hstep.1 hstep.2⟩
  exact hinv.1.complete hinv.2

/-- Schedulers without requests. -/
def idle : Workload Unit where
  active _ := false
  apply _ _ _ := True
  plan _ work _ := work = 0
  harvest _ _ := True

theorem run_lockstep_idle : ∃ g : DpGroup Unit 2,
    Run (Guarded (Step idle) Unanimous) (initial fun _ => ()) [.empty 0 false, .empty 1 false] g ∧
      RoundsComplete g := by
  have hfirst : Run (Guarded (Step idle) Unanimous) (initial fun _ : Fin 2 => ())
      [.empty 0 false] _ :=
    Run.single ⟨.empty rfl rfl rfl, fun j hleft => by fin_cases j <;> cases hleft⟩
  have hboth := hfirst.snoc
    ⟨.empty (i := 1) rfl rfl rfl, fun j hleft => by fin_cases j <;> cases hleft⟩
  exact ⟨_, hboth, run_lockstep hboth⟩

/-- The shutdown reaches the first of two idle replicas before, and the second after, their next
poll: the first leaves, the second enters a round alone. -/
theorem shutdown_leaves_peer : ∃ (events : List (Event 2)) (g : DpGroup Unit 2),
    Run (Step idle) (initial fun _ => ()) events g ∧ ¬ RoundsComplete g := by
  have hsent : Run (Step idle) (initial fun _ : Fin 2 => ()) _ _ :=
    Run.nil.snoc (Step.broadcast (show broadcast .shutdown = true from rfl))
  have harrived := hsent.snoc (Step.arrive (i := 0) rfl)
  have htaken := harrived.snoc (Step.take (i := 0) (.inl rfl) rfl rfl
    (show idle.apply () .shutdown () from trivial))
  have hstopping := htaken.snoc (Step.taken (i := 0) (.inl ⟨rfl, .inr rfl⟩))
  have hboth := hstopping.snoc (Step.empty (i := 1) rfl rfl rfl)
  have hleft := hboth.snoc (Step.activity (i := 0) (k := 0) rfl rfl fun i => by fin_cases i <;> decide)
  have hidle := hleft.snoc (Step.activity (i := 1) (k := 0) rfl rfl fun i => by fin_cases i <;> decide)
  have halone := hidle.snoc (Step.empty (i := 1) rfl rfl rfl)
  exact ⟨_, _, halone, fun h => absurd (h.together 1 0 false rfl) (by decide)⟩

end RapidLlm.DpLockstep
