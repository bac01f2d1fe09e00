import Mathlib.Data.List.Pairwise

/-!
# Nested service by priority

Controllers mark the levels that are in service. A service that is accepted marks
a level of some controllers and runs on top of those it interrupts; sooner or
later it acknowledges controllers, and an acknowledgement ends the highest level
in service, level 0 being the highest, whoever it was marked by.

Every acknowledgement ends a level of its own service when no service that
acknowledges a controller without marking it comes while that controller is busy,
and in runs that end with nothing interrupted only then.
-/

namespace Library.NestedService

set_option autoImplicit false

/-- The levels a service marks, and the controllers it acknowledges, in order. -/
structure Service (Controller : Type) where
  level : Controller → Option Nat
  acks : List Controller
  distinct : acks.Nodup
  acknowledged : ∀ controller, level controller ≠ none → controller ∈ acks

/-- A service under way, with the acknowledgements that are still to come. -/
structure Activation (Controller : Type) where
  id : Nat
  level : Controller → Option Nat
  acks : List Controller

structure ServiceState (Controller : Type) where
  /-- The activation that marked a level, while it is in service. -/
  inService : Controller → Nat → Option Nat
  /-- The services under way, the one that runs first. -/
  stack : List (Activation Controller)
  next : Nat

inductive Event (Controller : Type) where
  | enter (service : Service Controller)
  | acknowledge
  | leave

def idle (Controller : Type) : ServiceState Controller := ⟨fun _ _ => none, [], 0⟩

section Nesting

variable {Controller : Type} (size : Nat)

def highest (levels : Nat → Option Nat) : Option Nat :=
  (List.range size).find? fun level => (levels level).isSome

/-- A controller passes on a level only above those in service. -/
def Accepts (state : ServiceState Controller) (service : Service Controller) : Prop :=
  ∀ controller level, service.level controller = some level →
    level < size ∧ ∀ other, other ≤ level → state.inService controller other = none

def entered (state : ServiceState Controller) (service : Service Controller) :
    ServiceState Controller where
  inService controller level :=
    if service.level controller = some level then some state.next
    else state.inService controller level
  stack := ⟨state.next, service.level, service.acks⟩ :: state.stack
  next := state.next + 1

/-- An acknowledgement ends no level that another activation marked. -/
def ClearsOwn (state : ServiceState Controller) : Event Controller → Prop
  | .acknowledge => ∀ top below controller acks, state.stack = top :: below →
      top.acks = controller :: acks → ∀ level owner,
        highest size (state.inService controller) = some level →
          state.inService controller level = some owner → owner = top.id
  | _ => True

/-- A service that acknowledges a controller without marking it comes when that
controller has nothing in service. -/
def Careful (state : ServiceState Controller) : Event Controller → Prop
  | .enter service => ∀ controller ∈ service.acks, service.level controller = none →
      ∀ level, state.inService controller level = none
  | _ => True

variable {size}

theorem highest_in_service {levels : Nat → Option Nat} {level : Nat}
    (found : highest size levels = some level) :
    ∃ owner, levels level = some owner := by
  have some := List.find?_some found
  exact Option.isSome_iff_exists.mp some

theorem highest_le {levels : Nat → Option Nat} {level other owner : Nat}
    (found : highest size levels = some level) (marked : levels other = some owner) :
    level ≤ other := by
  by_contra above
  have before := (List.find?_range_eq_some.mp found).2.2 other (Nat.lt_of_not_le above)
  rw [marked] at before
  cases before

theorem highest_exists {levels : Nat → Option Nat} {other owner : Nat} (small : other < size)
    (marked : levels other = some owner) : ∃ level, highest size levels = some level := by
  cases found : highest size levels with
  | some level => exact ⟨level, rfl⟩
  | none =>
      have absent := List.find?_eq_none.mp found other (List.mem_range.mpr small)
      rw [marked] at absent
      exact absurd rfl absent

def Activation.Holds (activation : Activation Controller) (controller : Controller)
    (level : Nat) : Prop :=
  controller ∈ activation.acks ∧ activation.level controller = some level

def Holder (stack : List (Activation Controller)) (controller : Controller) (level owner : Nat) :
    Prop :=
  ∃ activation ∈ stack, activation.id = owner ∧ activation.Holds controller level

theorem holder_cons (top : Activation Controller) (below : List (Activation Controller))
    (controller : Controller) (level owner : Nat) :
    Holder (top :: below) controller level owner ↔
      (top.id = owner ∧ top.Holds controller level) ∨ Holder below controller level owner := by
  unfold Holder
  simp only [List.mem_cons, or_and_right, exists_or, exists_eq_left]

/-- The levels in service are those that activations on the stack hold. -/
structure Consistent (size : Nat) (state : ServiceState Controller) : Prop where
  levels : ∀ controller level owner, state.inService controller level = some owner ↔
    Holder state.stack controller level owner
  ids : state.stack.Pairwise fun above below => above.id ≠ below.id
  fresh : ∀ activation ∈ state.stack, activation.id < state.next
  distinct : ∀ activation ∈ state.stack, activation.acks.Nodup
  small : ∀ activation ∈ state.stack, ∀ controller level,
    activation.level controller = some level → level < size

theorem idle_consistent : Consistent size (idle Controller) := by
  constructor
  · intro controller level owner
    apply iff_of_false
    · intro marked
      cases marked
    · rintro ⟨activation, member, _⟩
      cases member
  · exact List.Pairwise.nil
  · intro activation member
    cases member
  · intro activation member
    cases member
  · intro activation member
    cases member

theorem finished_idle {state : ServiceState Controller} (consistent : Consistent size state)
    (finished : state.stack = []) (controller : Controller) (level : Nat) :
    state.inService controller level = none := by
  cases marked : state.inService controller level with
  | none => rfl
  | some owner =>
      rcases (consistent.levels controller level owner).mp marked with ⟨activation, member, _⟩
      rw [finished] at member
      cases member

theorem entered_consistent {state : ServiceState Controller} (consistent : Consistent size state)
    {service : Service Controller} (accepts : Accepts size state service) :
    Consistent size (entered state service) := by
  have older : ∀ activation ∈ state.stack, activation.id ≠ state.next := by
    intro activation member
    exact Nat.ne_of_lt (consistent.fresh activation member)
  constructor
  · intro controller level owner
    simp only [entered, holder_cons]
    by_cases marks : service.level controller = some level
    · have acknowledged := service.acknowledged controller (by rw [marks]; exact Option.some_ne_none _)
      have free := (accepts controller level marks).2 level (Nat.le_refl level)
      rw [if_pos marks]
      constructor
      · intro same
        exact Or.inl ⟨Option.some.inj same, acknowledged, marks⟩
      · rintro (⟨same, _⟩ | earlier)
        · exact congrArg some same
        · rw [← consistent.levels, free] at earlier
          cases earlier
    · rw [if_neg marks, consistent.levels]
      constructor
      · intro earlier
        exact Or.inr earlier
      · rintro (⟨_, _, held⟩ | earlier)
        · exact absurd held marks
        · exact earlier
  · apply List.Pairwise.cons _ consistent.ids
    intro activation member
    exact (older activation member).symm
  · intro activation member
    rcases List.mem_cons.mp member with rfl | earlier
    · exact Nat.lt_succ_self state.next
    · exact Nat.lt_succ_of_lt (consistent.fresh activation earlier)
  · intro activation member
    rcases List.mem_cons.mp member with rfl | earlier
    · exact service.distinct
    · exact consistent.distinct activation earlier
  · intro activation member controller level marks
    rcases List.mem_cons.mp member with rfl | earlier
    · exact (accepts controller level marks).1
    · exact consistent.small activation earlier controller level marks

theorem not_held_below {top : Activation Controller} {below : List (Activation Controller)}
    (ids : (top :: below).Pairwise fun above below => above.id ≠ below.id)
    (controller : Controller) (level : Nat) : ¬Holder below controller level top.id := by
  rintro ⟨activation, member, same, _⟩
  exact (List.pairwise_cons.mp ids).1 activation member same.symm

/-- Where an acknowledgement ends levels of its own only, it ends the one that its
activation marked, above all others. -/
theorem own_level_highest {state : ServiceState Controller} (consistent : Consistent size state)
    (own : ClearsOwn size state .acknowledge) {top : Activation Controller}
    {controller : Controller} {acks : List Controller} {below : List (Activation Controller)}
    (running : state.stack = top :: below) (pending : top.acks = controller :: acks)
    {level owner : Nat} (marked : state.inService controller level = some owner) :
    ∃ first, highest size (state.inService controller) = some first ∧
      state.inService controller first = some top.id ∧ top.level controller = some first ∧
        first ≤ level := by
  rcases (consistent.levels controller level owner).mp marked with ⟨holder, member, _, holds⟩
  have small := consistent.small holder member controller level holds.2
  rcases highest_exists small marked with ⟨first, found⟩
  rcases highest_in_service found with ⟨marker, mark⟩
  have same := own top below controller acks running pending first marker found mark
  rw [same] at mark
  have held := (consistent.levels controller first top.id).mp mark
  have ids := consistent.ids
  rw [running] at held ids
  rcases (holder_cons top below controller first top.id).mp held with mine | others
  · exact ⟨first, found, mark, mine.2.2, highest_le found marked⟩
  · exact absurd others (not_held_below ids controller first)

theorem left_consistent {state : ServiceState Controller} (consistent : Consistent size state)
    {top : Activation Controller} {below : List (Activation Controller)}
    (running : state.stack = top :: below) (nothing : top.acks = []) :
    Consistent size { state with stack := below } := by
  have older : ∀ activation ∈ below, activation ∈ state.stack := by
    intro activation member
    rw [running]
    exact List.mem_cons_of_mem top member
  constructor
  · intro controller level owner
    have unheld : ¬(top.id = owner ∧ top.Holds controller level) := by
      rintro ⟨_, acknowledges, _⟩
      rw [nothing] at acknowledges
      cases acknowledges
    rw [consistent.levels, running, holder_cons, or_iff_right unheld]
  · have ids := consistent.ids
    rw [running] at ids
    exact (List.pairwise_cons.mp ids).2
  · exact fun activation member => consistent.fresh activation (older activation member)
  · exact fun activation member => consistent.distinct activation (older activation member)
  · exact fun activation member => consistent.small activation (older activation member)

/-- What the activation above still acknowledges and the one below holds, the one above
holds at a higher level. -/
def Guards (above below : Activation Controller) : Prop :=
  ∀ controller level, controller ∈ above.acks → below.Holds controller level →
    ∃ higher, above.level controller = some higher ∧ higher < level

def Guarded (state : ServiceState Controller) : Prop := state.stack.Pairwise Guards

theorem guarded_clears_own {state : ServiceState Controller} (consistent : Consistent size state)
    (guarded : Guarded state) (event : Event Controller) : ClearsOwn size state event := by
  cases event with
  | enter service => trivial
  | leave => trivial
  | acknowledge =>
      intro top below controller acks running pending level owner found marked
      have held := (consistent.levels controller level owner).mp marked
      unfold Guarded at guarded
      rw [running] at held guarded
      rcases (holder_cons top below controller level owner).mp held with mine | others
      · exact mine.1.symm
      · rcases others with ⟨activation, member, _, holds⟩
        have acknowledges : controller ∈ top.acks := by
          rw [pending]
          exact List.mem_cons_self
        rcases (List.pairwise_cons.mp guarded).1 activation member controller level acknowledges
          holds with ⟨higher, marks, above⟩
        have mark : state.inService controller higher = some top.id := by
          rw [consistent.levels, running, holder_cons]
          exact Or.inl ⟨rfl, acknowledges, marks⟩
        exact absurd (highest_le found mark) (Nat.not_le_of_lt above)

variable [DecidableEq Controller]

variable (size) in
def ended (inService : Controller → Nat → Option Nat) (controller : Controller) :
    Controller → Nat → Option Nat := fun other level =>
  if other = controller ∧ highest size (inService controller) = some level then none
  else inService other level

variable (size) in
/-- What each event does. Only the service on top of the stack runs. -/
inductive Step : ServiceState Controller → Event Controller → ServiceState Controller → Prop where
  | enter {state : ServiceState Controller} {service : Service Controller}
      (accepts : Accepts size state service) : Step state (.enter service) (entered state service)
  | acknowledge {state : ServiceState Controller} {top : Activation Controller}
      {controller : Controller} {acks : List Controller} {below : List (Activation Controller)}
      (running : state.stack = top :: below) (pending : top.acks = controller :: acks) :
      Step state .acknowledge
        { state with
          inService := ended size state.inService controller
          stack := { top with acks } :: below }
  | leave {state : ServiceState Controller} {top : Activation Controller}
      {below : List (Activation Controller)} (running : state.stack = top :: below)
      (nothing : top.acks = []) : Step state .leave { state with stack := below }

variable (size) in
inductive RunsWith {Label : Type} (meaning : Label → Event Controller)
    (good : ServiceState Controller → Label → Prop) :
    ServiceState Controller → List Label → ServiceState Controller → Prop where
  | nil (state : ServiceState Controller) : RunsWith meaning good state [] state
  | cons {state middle final : ServiceState Controller} {label : Label} {labels : List Label}
      (holds : good state label) (stepped : Step size state (meaning label) middle)
      (rest : RunsWith meaning good middle labels final) :
      RunsWith meaning good state (label :: labels) final

theorem runs_with_imp {Label : Type} {meaning : Label → Event Controller}
    {good better : ServiceState Controller → Label → Prop}
    (imp : ∀ state label, good state label → better state label)
    {state final : ServiceState Controller} {labels : List Label}
    (runs : RunsWith size meaning good state labels final) :
    RunsWith size meaning better state labels final := by
  induction runs with
  | nil state => exact RunsWith.nil state
  | cons holds stepped rest induction => exact RunsWith.cons (imp _ _ holds) stepped induction

theorem ended_other (inService : Controller → Nat → Option Nat) {controller other : Controller}
    (different : other ≠ controller) (level : Nat) :
    ended size inService controller other level = inService other level :=
  if_neg fun both => different both.1

/-- What is left of the acknowledged controller is held by the activations below. -/
theorem ended_here_iff {state : ServiceState Controller} (consistent : Consistent size state)
    (own : ClearsOwn size state .acknowledge) {top : Activation Controller}
    {controller : Controller} {acks : List Controller} {below : List (Activation Controller)}
    (running : state.stack = top :: below) (pending : top.acks = controller :: acks)
    (level owner : Nat) :
    ended size state.inService controller controller level = some owner ↔
      Holder below controller level owner := by
  have ids := consistent.ids
  have levels := consistent.levels controller level owner
  rw [running] at ids levels
  rw [holder_cons] at levels
  unfold ended
  constructor
  · intro left
    by_cases first : highest size (state.inService controller) = some level
    · rw [if_pos ⟨rfl, first⟩] at left
      cases left
    · rw [if_neg fun both => first both.2] at left
      rcases levels.mp left with mine | others
      · rcases own_level_highest consistent own running pending left with ⟨_, found, _, marks, _⟩
        rw [mine.2.2] at marks
        rw [← Option.some.inj marks] at found
        exact absurd found first
      · exact others
  · intro others
    have marked := levels.mpr (Or.inr others)
    rcases own_level_highest consistent own running pending marked with ⟨first, found, mark, _⟩
    rw [if_neg]
    · exact marked
    · rintro ⟨_, same⟩
      rw [found] at same
      rw [Option.some.inj same, marked] at mark
      rw [Option.some.inj mark] at others
      exact not_held_below ids controller level others

theorem acknowledged_consistent {state : ServiceState Controller}
    (consistent : Consistent size state) (own : ClearsOwn size state .acknowledge)
    {top : Activation Controller} {controller : Controller} {acks : List Controller}
    {below : List (Activation Controller)} (running : state.stack = top :: below)
    (pending : top.acks = controller :: acks) :
    Consistent size
      { state with
        inService := ended size state.inService controller
        stack := { top with acks } :: below } := by
  have onTop : top ∈ state.stack := by
    rw [running]
    exact List.mem_cons_self
  have older : ∀ activation ∈ below, activation ∈ state.stack := by
    intro activation member
    rw [running]
    exact List.mem_cons_of_mem top member
  have distinct := consistent.distinct top onTop
  rw [pending, List.nodup_cons] at distinct
  constructor
  · intro other level owner
    rw [holder_cons]
    dsimp only
    by_cases here : other = controller
    · rw [here, ended_here_iff consistent own running pending, or_iff_right]
      exact fun held => distinct.1 held.2.1
    · have sameHolds : ({ top with acks } : Activation Controller).Holds other level ↔
          top.Holds other level := by
        unfold Activation.Holds
        rw [pending, List.mem_cons, or_iff_right here]
      rw [ended_other _ here, consistent.levels, running, holder_cons, sameHolds]
  · have ids := consistent.ids
    rw [running, List.pairwise_cons] at ids
    exact List.pairwise_cons.mpr ids
  · intro activation member
    rcases List.mem_cons.mp member with rfl | earlier
    · exact consistent.fresh top onTop
    · exact consistent.fresh activation (older activation earlier)
  · intro activation member
    rcases List.mem_cons.mp member with rfl | earlier
    · exact distinct.2
    · exact consistent.distinct activation (older activation earlier)
  · intro activation member
    rcases List.mem_cons.mp member with rfl | earlier
    · exact consistent.small top onTop
    · exact consistent.small activation (older activation earlier)

theorem step_consistent {state next : ServiceState Controller} (consistent : Consistent size state)
    {event : Event Controller} (own : ClearsOwn size state event)
    (stepped : Step size state event next) : Consistent size next := by
  cases stepped with
  | enter accepts => exact entered_consistent consistent accepts
  | acknowledge running pending => exact acknowledged_consistent consistent own running pending
  | leave running nothing => exact left_consistent consistent running nothing

theorem step_guarded {state next : ServiceState Controller} (consistent : Consistent size state)
    (guarded : Guarded state) {event : Event Controller} (careful : Careful state event)
    (stepped : Step size state event next) : Guarded next := by
  unfold Guarded at guarded ⊢
  cases stepped with
  | enter accepts =>
      rename_i service
      apply List.Pairwise.cons _ guarded
      intro activation member controller level acknowledges holds
      have marked : state.inService controller level = some activation.id :=
        (consistent.levels controller level activation.id).mpr ⟨activation, member, rfl, holds⟩
      cases marks : service.level controller with
      | none =>
          have free := careful controller acknowledges marks level
          rw [marked] at free
          cases free
      | some higher =>
          refine ⟨higher, marks, ?_⟩
          by_contra below
          have free := (accepts controller higher marks).2 level (Nat.le_of_not_lt below)
          rw [marked] at free
          cases free
  | acknowledge running pending =>
      rw [running, List.pairwise_cons] at guarded
      apply List.Pairwise.cons _ guarded.2
      intro activation member controller level acknowledges holds
      apply guarded.1 activation member controller level _ holds
      rw [pending]
      exact List.mem_cons_of_mem _ acknowledges
  | leave running nothing =>
      rw [running] at guarded
      exact (List.pairwise_cons.mp guarded).2

/-- A stack that is not guarded stays so until an acknowledgement ends a level of
another activation. -/
theorem guarded_before {state next : ServiceState Controller} (consistent : Consistent size state)
    {event : Event Controller} (own : ClearsOwn size state event)
    (stepped : Step size state event next) (guarded : Guarded next) : Guarded state := by
  unfold Guarded at guarded ⊢
  cases stepped with
  | enter accepts => exact (List.pairwise_cons.mp guarded).2
  | acknowledge running pending =>
      rename_i top acknowledged acks below
      rw [List.pairwise_cons] at guarded
      have ids := consistent.ids
      rw [running] at ids ⊢
      apply List.Pairwise.cons _ guarded.2
      intro activation member controller level acknowledges holds
      rw [pending] at acknowledges
      rcases List.mem_cons.mp acknowledges with rfl | later
      · have marked : state.inService controller level = some activation.id := by
          rw [consistent.levels, running, holder_cons]
          exact Or.inr ⟨activation, member, rfl, holds⟩
        rcases own_level_highest consistent own running pending marked with
          ⟨first, _, mark, marks, le⟩
        refine ⟨first, marks, Nat.lt_of_le_of_ne le ?_⟩
        intro same
        rw [same, marked] at mark
        exact (List.pairwise_cons.mp ids).1 activation member (Option.some.inj mark).symm
      · exact guarded.1 activation member controller level later holds
  | leave running nothing =>
      rw [running]
      apply List.Pairwise.cons _ guarded
      intro activation member controller level acknowledges
      rw [nothing] at acknowledges
      cases acknowledges

theorem guarded_careful {state next : ServiceState Controller} (consistent : Consistent size state)
    {event : Event Controller} (stepped : Step size state event next) (guarded : Guarded next) :
    Careful state event := by
  cases stepped with
  | acknowledge => trivial
  | leave => trivial
  | enter accepts =>
      intro controller acknowledges unmarked level
      cases marked : state.inService controller level with
      | none => rfl
      | some owner =>
          rcases (consistent.levels controller level owner).mp marked with
            ⟨activation, member, _, holds⟩
          rcases (List.pairwise_cons.mp guarded).1 activation member controller level acknowledges
            holds with ⟨higher, marks, _⟩
          exact absurd (unmarked.symm.trans marks) (Option.some_ne_none higher).symm

section Runs

variable {Label : Type} {meaning : Label → Event Controller}

theorem careful_run {state final : ServiceState Controller} (consistent : Consistent size state)
    (guarded : Guarded state) {labels : List Label}
    (runs : RunsWith size meaning (fun state label => Careful state (meaning label)) state labels
      final) :
    RunsWith size meaning (fun state label => ClearsOwn size state (meaning label)) state labels
      final := by
  induction runs with
  | nil state => exact RunsWith.nil state
  | cons careful stepped rest induction =>
      have own := guarded_clears_own consistent guarded
      have nextConsistent := step_consistent consistent (own _) stepped
      have nextGuarded := step_guarded consistent guarded careful stepped
      exact RunsWith.cons (own _) stepped (induction nextConsistent nextGuarded)

/-- The condition is necessary where nothing is left interrupted. -/
theorem own_run {state final : ServiceState Controller} (consistent : Consistent size state)
    {labels : List Label}
    (runs : RunsWith size meaning (fun state label => ClearsOwn size state (meaning label)) state
      labels final) (finished : final.stack = []) :
    Guarded state ∧
      RunsWith size meaning (fun state label => Careful state (meaning label)) state labels
        final := by
  induction runs with
  | nil state =>
      constructor
      · unfold Guarded
        rw [finished]
        exact List.Pairwise.nil
      · exact RunsWith.nil state
  | cons own stepped rest induction =>
      rcases induction (step_consistent consistent own stepped) finished with ⟨guarded, careful⟩
      exact ⟨guarded_before consistent own stepped guarded,
        RunsWith.cons (guarded_careful consistent stepped guarded) stepped careful⟩

/-- Runs that keep an invariant under which every service that comes is careful. -/
theorem invariant_run {invariant : ServiceState Controller → Prop}
    {good : ServiceState Controller → Label → Prop}
    (careful : ∀ {state next label}, Consistent size state → invariant state →
      Step size state (meaning label) next → Careful state (meaning label))
    (kept : ∀ {state next label}, invariant state → Step size state (meaning label) next →
      invariant next)
    {state final : ServiceState Controller} (consistent : Consistent size state)
    (guarded : Guarded state) (holds : invariant state) {labels : List Label}
    (runs : RunsWith size meaning good state labels final) :
    RunsWith size meaning (fun state label => ClearsOwn size state (meaning label)) state labels
      final ∧ Consistent size final := by
  induction runs with
  | nil state => exact ⟨RunsWith.nil state, consistent⟩
  | cons _ stepped rest induction =>
      have own := guarded_clears_own consistent guarded
      have nextConsistent := step_consistent consistent (own _) stepped
      have nextGuarded := step_guarded consistent guarded (careful consistent holds stepped) stepped
      rcases induction nextConsistent nextGuarded (kept holds stepped) with ⟨later, left⟩
      exact ⟨RunsWith.cons (own _) stepped later, left⟩

end Runs

end Nesting

end Library.NestedService
