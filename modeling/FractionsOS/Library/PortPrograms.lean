import Mathlib.Data.List.Basic
import Mathlib.Logic.Function.Iterate

/-!
# Programs that talk to a device through I/O ports

A program is a tree of port instructions; a device is what it does to the byte
and word accesses it is given. The only unbounded instruction is `spin`, the
loop that polls one port until the byte read is the one waited for. `exec`
gives every spin the same budget of polls, and `Returns` says that some budget
is enough. The trace pairs every access with the device state it met.
-/

namespace Library.PortPrograms

set_option autoImplicit false

inductive PortProgram (Result : Type) : Type where
  | done (result : Result)
  | inb (port : UInt16) (next : UInt8 → PortProgram Result)
  | outb (port : UInt16) (value : UInt8) (next : PortProgram Result)
  | insw (port : UInt16) (count : Nat) (next : List UInt16 → PortProgram Result)
  | outsw (port : UInt16) (words : List UInt16) (next : PortProgram Result)
  | spin (port : UInt16) (again : UInt8 → Bool) (next : PortProgram Result)

namespace PortProgram

variable {Result Other : Type}

def bind : PortProgram Result → (Result → PortProgram Other) → PortProgram Other
  | .done result, onward => onward result
  | .inb port next, onward => .inb port fun value => (next value).bind onward
  | .outb port value next, onward => .outb port value (next.bind onward)
  | .insw port count next, onward => .insw port count fun words => (next words).bind onward
  | .outsw port words next, onward => .outsw port words (next.bind onward)
  | .spin port again next, onward => .spin port again (next.bind onward)

instance : Monad PortProgram where
  pure := .done
  bind := bind

end PortProgram

def inb (port : UInt16) : PortProgram UInt8 := .inb port .done
def outb (port : UInt16) (value : UInt8) : PortProgram Unit := .outb port value (.done ())
def insw (port : UInt16) (count : Nat) : PortProgram (List UInt16) := .insw port count .done
def outsw (port : UInt16) (words : List UInt16) : PortProgram Unit := .outsw port words (.done ())

/-- `while (again(inb(port)));` -/
def spin (port : UInt16) (again : UInt8 → Bool) : PortProgram Unit := .spin port again (.done ())

structure PortDevice (State : Type) where
  inb : State → UInt16 → UInt8 × State
  outb : State → UInt16 → UInt8 → State
  inw : State → UInt16 → UInt16 × State
  outw : State → UInt16 → UInt16 → State

inductive PortAccess where
  | readByte (port : UInt16)
  | writeByte (port : UInt16) (value : UInt8)
  | readWord (port : UInt16)
  | writeWord (port : UInt16) (value : UInt16)
  deriving DecidableEq, Repr

def PortAccess.isWord : PortAccess → Bool
  | .readByte _ => false
  | .writeByte _ _ => false
  | .readWord _ => true
  | .writeWord _ _ => true

structure PortEvent (State : Type) where
  access : PortAccess
  before : State

structure Outcome (Result State : Type) where
  result : Result
  state : State
  trace : List (PortEvent State)

section Execution

variable {State Result Other : Type} (device : PortDevice State)

/-- `rep insw`: one word read after another, the status not looked at. -/
def readWords (port : UInt16) : Nat → State → Outcome (List UInt16) State
  | 0, state => ⟨[], state, []⟩
  | count + 1, state =>
      let (word, next) := device.inw state port
      let rest := readWords port count next
      ⟨word :: rest.result, rest.state, ⟨.readWord port, state⟩ :: rest.trace⟩

def writeWords (port : UInt16) : List UInt16 → State → Outcome Unit State
  | [], state => ⟨(), state, []⟩
  | word :: words, state =>
      let rest := writeWords port words (device.outw state port word)
      ⟨(), rest.state, ⟨.writeWord port word, state⟩ :: rest.trace⟩

/-- The polls of one spin, at most `budget` of them. -/
def pollUntil (port : UInt16) (again : UInt8 → Bool) : Nat → State → Option (Outcome Unit State)
  | 0, _ => none
  | budget + 1, state =>
      let (value, next) := device.inb state port
      if again value then
        (pollUntil port again budget next).map fun rest =>
          ⟨(), rest.state, ⟨.readByte port, state⟩ :: rest.trace⟩
      else some ⟨(), next, [⟨.readByte port, state⟩]⟩

def Outcome.after (earlier : List (PortEvent State)) (outcome : Outcome Result State) :
    Outcome Result State :=
  { outcome with trace := earlier ++ outcome.trace }

def exec (budget : Nat) : PortProgram Result → State → Option (Outcome Result State)
  | .done result, state => some ⟨result, state, []⟩
  | .inb port next, state =>
      let (value, after) := device.inb state port
      (exec budget (next value) after).map (Outcome.after [⟨.readByte port, state⟩])
  | .outb port value next, state =>
      (exec budget next (device.outb state port value)).map
        (Outcome.after [⟨.writeByte port value, state⟩])
  | .insw port count next, state =>
      let moved := readWords device port count state
      (exec budget (next moved.result) moved.state).map (Outcome.after moved.trace)
  | .outsw port words next, state =>
      let moved := writeWords device port words state
      (exec budget next moved.state).map (Outcome.after moved.trace)
  | .spin port again next, state =>
      (pollUntil device port again budget state).bind fun polled =>
        (exec budget next polled.state).map (Outcome.after polled.trace)

/-- The program returns: some budget of polls is enough for all its spins. -/
def Returns (program : PortProgram Result) (state : State) (outcome : Outcome Result State) : Prop :=
  ∃ budget, exec device budget program state = some outcome

variable {device}

theorem after_after (first second : List (PortEvent State)) (outcome : Outcome Result State) :
    (outcome.after second).after first = outcome.after (first ++ second) := by
  simp only [Outcome.after, List.append_assoc]

variable (device) in
def continueWith (budget : Nat) (onward : Result → PortProgram Other)
    (outcome : Outcome Result State) : Option (Outcome Other State) :=
  (exec device budget (onward outcome.result) outcome.state).map (Outcome.after outcome.trace)

theorem continue_after (budget : Nat) (onward : Result → PortProgram Other)
    (earlier : List (PortEvent State)) (attempt : Option (Outcome Result State)) :
    (attempt.map (Outcome.after earlier)).bind (continueWith device budget onward) =
      (attempt.bind (continueWith device budget onward)).map (Outcome.after earlier) := by
  cases attempt with
  | none => rfl
  | some outcome =>
      simp only [Option.map_some, Option.bind_some, continueWith, Option.map_map]
      congr 1
      funext rest
      exact (after_after earlier outcome.trace rest).symm

theorem exec_bind (budget : Nat) (program : PortProgram Result)
    (onward : Result → PortProgram Other) (state : State) :
    exec device budget (program.bind onward) state =
      (exec device budget program state).bind (continueWith device budget onward) := by
  induction program generalizing state with
  | done result =>
      simp only [PortProgram.bind, exec, Option.bind_some, continueWith]
      cases exec device budget (onward result) state <;> rfl
  | inb port next induction =>
      simp only [PortProgram.bind, exec, induction, continue_after]
  | outb port value next induction =>
      simp only [PortProgram.bind, exec, induction, continue_after]
  | insw port count next induction =>
      simp only [PortProgram.bind, exec, induction, continue_after]
  | outsw port words next induction =>
      simp only [PortProgram.bind, exec, induction, continue_after]
  | spin port again next induction =>
      simp only [PortProgram.bind, exec]
      cases pollUntil device port again budget state with
      | none => rfl
      | some polled => simp only [Option.bind_some, induction, continue_after]

theorem poll_monotone {port : UInt16} {again : UInt8 → Bool} {budget larger : Nat}
    (enough : budget ≤ larger) {state : State} {outcome : Outcome Unit State}
    (polled : pollUntil device port again budget state = some outcome) :
    pollUntil device port again larger state = some outcome := by
  induction budget generalizing larger state outcome with
  | zero => cases polled
  | succ budget induction =>
      obtain ⟨more, rfl⟩ : ∃ more, larger = more + 1 := ⟨larger - 1, by omega⟩
      simp only [pollUntil] at polled ⊢
      split_ifs at polled ⊢ with repeated
      · rw [Option.map_eq_some_iff] at polled ⊢
        obtain ⟨rest, found, same⟩ := polled
        exact ⟨rest, induction (by omega) found, same⟩
      · exact polled

theorem exec_monotone {program : PortProgram Result} {budget larger : Nat}
    (enough : budget ≤ larger) {state : State} {outcome : Outcome Result State}
    (found : exec device budget program state = some outcome) :
    exec device larger program state = some outcome := by
  induction program generalizing state outcome with
  | done result => exact found
  | inb port next induction =>
      simp only [exec, Option.map_eq_some_iff] at found ⊢
      obtain ⟨rest, inner, same⟩ := found
      exact ⟨rest, induction _ inner, same⟩
  | outb port value next induction =>
      simp only [exec, Option.map_eq_some_iff] at found ⊢
      obtain ⟨rest, inner, same⟩ := found
      exact ⟨rest, induction inner, same⟩
  | insw port count next induction =>
      simp only [exec, Option.map_eq_some_iff] at found ⊢
      obtain ⟨rest, inner, same⟩ := found
      exact ⟨rest, induction _ inner, same⟩
  | outsw port words next induction =>
      simp only [exec, Option.map_eq_some_iff] at found ⊢
      obtain ⟨rest, inner, same⟩ := found
      exact ⟨rest, induction inner, same⟩
  | spin port again next induction =>
      simp only [exec, Option.bind_eq_some_iff, Option.map_eq_some_iff] at found ⊢
      obtain ⟨polled, polls, rest, inner, same⟩ := found
      exact ⟨polled, poll_monotone enough polls, rest, induction inner, same⟩

theorem returns_unique {program : PortProgram Result} {state : State}
    {left right : Outcome Result State} (leftReturns : Returns device program state left)
    (rightReturns : Returns device program state right) : left = right := by
  obtain ⟨leftBudget, leftFound⟩ := leftReturns
  obtain ⟨rightBudget, rightFound⟩ := rightReturns
  have leftLarge := exec_monotone (Nat.le_max_left leftBudget rightBudget) leftFound
  have rightLarge := exec_monotone (Nat.le_max_right leftBudget rightBudget) rightFound
  exact Option.some.inj (leftLarge.symm.trans rightLarge)

/-- A property of the outcome that can be tested by running the program. -/
theorem returns_tested {program : PortProgram Result} {state : State} (budget : Nat)
    {property : Outcome Result State → Prop} [DecidablePred property]
    (tested : (exec device budget program state).any (fun outcome => property outcome) = true) :
    ∃ outcome, Returns device program state outcome ∧ property outcome := by
  rw [Option.any_eq_true] at tested
  rcases tested with ⟨outcome, found, holds⟩
  exact ⟨outcome, ⟨budget, found⟩, of_decide_eq_true holds⟩

theorem returns_bind {program : PortProgram Result} {onward : Result → PortProgram Other}
    {state : State} {first : Outcome Result State} {second : Outcome Other State}
    (firstReturns : Returns device program state first)
    (secondReturns : Returns device (onward first.result) first.state second) :
    Returns device (program >>= onward) state (second.after first.trace) := by
  obtain ⟨firstBudget, firstFound⟩ := firstReturns
  obtain ⟨secondBudget, secondFound⟩ := secondReturns
  refine ⟨max firstBudget secondBudget, ?_⟩
  change exec device _ (program.bind onward) state = _
  rw [exec_bind, exec_monotone (Nat.le_max_left firstBudget secondBudget) firstFound,
    Option.bind_some, continueWith,
    exec_monotone (Nat.le_max_right firstBudget secondBudget) secondFound]
  rfl

theorem returns_bind_inv {program : PortProgram Result} {onward : Result → PortProgram Other}
    {state : State} {outcome : Outcome Other State}
    (returned : Returns device (program >>= onward) state outcome) :
    ∃ first rest, Returns device program state first ∧
      Returns device (onward first.result) first.state rest ∧ outcome = rest.after first.trace := by
  obtain ⟨budget, found⟩ := returned
  change exec device budget (program.bind onward) state = some outcome at found
  rw [exec_bind, Option.bind_eq_some_iff] at found
  obtain ⟨first, inner, continued⟩ := found
  obtain ⟨rest, later, same⟩ := Option.map_eq_some_iff.mp continued
  exact ⟨first, rest, ⟨budget, inner⟩, ⟨budget, later⟩, same.symm⟩

theorem returns_pure (result : Result) (state : State) :
    Returns device (pure result) state ⟨result, state, []⟩ := ⟨0, rfl⟩

theorem returns_inb (port : UInt16) (state : State) :
    Returns device (inb port) state
      ⟨(device.inb state port).1, (device.inb state port).2, [⟨.readByte port, state⟩]⟩ := ⟨0, rfl⟩

theorem returns_outb (port : UInt16) (value : UInt8) (state : State) :
    Returns device (outb port value) state
      ⟨(), device.outb state port value, [⟨.writeByte port value, state⟩]⟩ := ⟨0, rfl⟩

theorem returns_insw (port : UInt16) (count : Nat) (state : State) :
    Returns device (insw port count) state (readWords device port count state) := by
  refine ⟨0, ?_⟩
  simp only [insw, exec, Option.map_some, Outcome.after, List.append_nil]

theorem returns_outsw (port : UInt16) (words : List UInt16) (state : State) :
    Returns device (outsw port words) state (writeWords device port words state) := by
  refine ⟨0, ?_⟩
  simp only [outsw, exec, Option.map_some, Outcome.after, List.append_nil]

theorem returns_spin_stop {port : UInt16} {again : UInt8 → Bool} {state : State}
    (stop : again (device.inb state port).1 = false) :
    Returns device (spin port again) state
      ⟨(), (device.inb state port).2, [⟨.readByte port, state⟩]⟩ := by
  refine ⟨1, ?_⟩
  simp only [spin, exec, pollUntil, stop]
  rfl

theorem returns_spin_again {port : UInt16} {again : UInt8 → Bool} {state : State}
    {rest : Outcome Unit State} (repeated : again (device.inb state port).1 = true)
    (restReturns : Returns device (spin port again) (device.inb state port).2 rest) :
    Returns device (spin port again) state (rest.after [⟨.readByte port, state⟩]) := by
  obtain ⟨budget, found⟩ := restReturns
  refine ⟨budget + 1, ?_⟩
  simp only [spin, exec, Option.map_some, Outcome.after, Option.bind_eq_some_iff,
    Option.some.injEq] at found ⊢
  obtain ⟨polled, polls, same⟩ := found
  refine ⟨polled.after [⟨.readByte port, state⟩], ?_, ?_⟩
  · simp only [pollUntil, repeated, if_true, poll_monotone (Nat.le_refl budget) polls]
    rfl
  · rw [← same]
    simp only [Outcome.after, List.append_nil]

theorem polls_read {port : UInt16} {again : UInt8 → Bool} {budget : Nat} {state : State}
    {outcome : Outcome Unit State} (polled : pollUntil device port again budget state = some outcome) :
    ∀ event ∈ outcome.trace, event.access = .readByte port := by
  induction budget generalizing state outcome with
  | zero => cases polled
  | succ budget induction =>
      simp only [pollUntil] at polled
      split_ifs at polled
      · obtain ⟨rest, found, rfl⟩ := Option.map_eq_some_iff.mp polled
        exact List.forall_mem_cons.mpr ⟨rfl, induction found⟩
      · cases polled
        simp

theorem spin_reads {port : UInt16} {again : UInt8 → Bool} {state : State}
    {outcome : Outcome Unit State} (returned : Returns device (spin port again) state outcome) :
    ∀ event ∈ outcome.trace, event.access = .readByte port := by
  obtain ⟨budget, found⟩ := returned
  simp only [spin, exec, Option.bind_eq_some_iff, Option.map_some, Option.some.injEq] at found
  obtain ⟨polled, polls, rfl⟩ := found
  simp only [Outcome.after, List.append_nil]
  exact polls_read polls

/-- A spin does not end in states that all ask for another poll. -/
theorem spin_endless {port : UInt16} {again : UInt8 → Bool} {waits : State → Prop}
    (onward : ∀ state, waits state →
      again (device.inb state port).1 = true ∧ waits (device.inb state port).2)
    {state : State} (start : waits state) (outcome : Outcome Unit State) :
    ¬Returns device (spin port again) state outcome := by
  have never : ∀ budget, pollUntil device port again budget state = none := by
    intro budget
    induction budget generalizing state with
    | zero => rfl
    | succ budget induction =>
        obtain ⟨repeated, next⟩ := onward state start
        simp only [pollUntil, repeated, if_true, induction next, Option.map_none]
  rintro ⟨budget, found⟩
  simp only [spin, exec, never, Option.bind_none] at found
  cases found

variable (device) in
def EndsIn (program : PortProgram Result) (state : State) (allowed : Result → Prop) : Prop :=
  ∃ outcome, Returns device program state outcome ∧ allowed outcome.result

section Endings

variable {program : PortProgram Result} {onward : Result → PortProgram Other} {state : State}
  {allowed : Other → Prop}

theorem ends_bind {first : Outcome Result State} (returned : Returns device program state first) :
    EndsIn device (program >>= onward) state allowed ↔
      EndsIn device (onward first.result) first.state allowed := by
  constructor
  · rintro ⟨outcome, returns, holds⟩
    obtain ⟨reached, rest, inner, later, rfl⟩ := returns_bind_inv returns
    rw [returns_unique returned inner]
    exact ⟨rest, later, holds⟩
  · rintro ⟨rest, later, holds⟩
    exact ⟨_, returns_bind returned later, holds⟩

theorem not_ends_bind (endless : ∀ first, ¬Returns device program state first) :
    ¬EndsIn device (program >>= onward) state allowed := by
  rintro ⟨outcome, returns, -⟩
  obtain ⟨reached, rest, inner, -, -⟩ := returns_bind_inv returns
  exact endless reached inner

theorem ends_return (result : Result → Other) :
    EndsIn device (program >>= fun value => pure (result value)) state allowed ↔
      EndsIn device program state fun value => allowed (result value) := by
  constructor
  · rintro ⟨outcome, returns, holds⟩
    obtain ⟨reached, rest, inner, later, rfl⟩ := returns_bind_inv returns
    rw [returns_unique later (returns_pure _ _)] at holds
    exact ⟨reached, inner, holds⟩
  · rintro ⟨reached, returns, holds⟩
    exact ⟨_, returns_bind returns (returns_pure _ _), holds⟩

/-- On a port that always shows the same byte, a spin ends at its first poll or never. -/
theorem ends_spin_steady {port : UInt16} {again : UInt8 → Bool} {value : UInt8}
    (steady : ∀ state, (device.inb state port).1 = value) {onward : Unit → PortProgram Other} :
    EndsIn device (spin port again >>= onward) state allowed ↔
      again value = false ∧ EndsIn device (onward ()) (device.inb state port).2 allowed := by
  cases repeated : again value with
  | false =>
      have stop : again (device.inb state port).1 = false := by rw [steady, repeated]
      rw [ends_bind (returns_spin_stop stop)]
      exact (and_iff_right rfl).symm
  | true =>
      have onwards : ∀ state, True → again (device.inb state port).1 = true ∧ True := by
        intro state _
        rw [steady, repeated]
        exact ⟨rfl, trivial⟩
      apply iff_of_false
      · exact not_ends_bind (spin_endless onwards trivial)
      · exact fun ended => Bool.noConfusion ended.1

end Endings

/-- Whatever the device, a result that the program returns has the property. -/
def Yields (program : PortProgram Result) (property : Result → Prop) : Prop :=
  ∀ (State : Type) (device : PortDevice State) (state : State) (outcome : Outcome Result State),
    Returns device program state outcome → property outcome.result

theorem yields_any (program : PortProgram Result) : Yields program fun _ => True :=
  fun _ _ _ _ _ => trivial

theorem yields_pure {property : Result → Prop} {result : Result} (holds : property result) :
    Yields (pure result) property := by
  intro State device state outcome returned
  rw [returns_unique returned (returns_pure result state)]
  exact holds

theorem yields_bind {program : PortProgram Result} {onward : Result → PortProgram Other}
    {middle : Result → Prop} {property : Other → Prop} (first : Yields program middle)
    (second : ∀ result, middle result → Yields (onward result) property) :
    Yields (program >>= onward) property := by
  intro State device state outcome returned
  obtain ⟨reached, rest, inner, later, rfl⟩ := returns_bind_inv returned
  exact second reached.result (first State device state reached inner) State device reached.state
    rest later

theorem read_words_length (device : PortDevice State) (port : UInt16) (count : Nat)
    (state : State) : (readWords device port count state).result.length = count := by
  induction count generalizing state with
  | zero => rfl
  | succ count induction => exact congrArg Nat.succ (induction _)

theorem yields_insw (port : UInt16) (count : Nat) :
    Yields (insw port count) fun words => words.length = count := by
  intro State device state outcome returned
  rw [returns_unique returned (returns_insw port count state)]
  exact read_words_length device port count state

section Seeing

variable {seen : PortAccess → Bool}

variable (device seen) in
def ReturnsSeeing (program : PortProgram Result) (state : State) (result : Result) (after : State)
    (events : List (PortEvent State)) : Prop :=
  ∃ trace, Returns device program state ⟨result, after, trace⟩ ∧
    trace.filter (fun event => seen event.access) = events

theorem seeing_bind {program : PortProgram Result} {onward : Result → PortProgram Other}
    {state middle after : State} {first : Result} {second : Other}
    {early late : List (PortEvent State)}
    (firstSeen : ReturnsSeeing device seen program state first middle early)
    (secondSeen : ReturnsSeeing device seen (onward first) middle second after late) :
    ReturnsSeeing device seen (program >>= onward) state second after (early ++ late) := by
  obtain ⟨firstTrace, firstReturns, firstEvents⟩ := firstSeen
  obtain ⟨secondTrace, secondReturns, secondEvents⟩ := secondSeen
  refine ⟨firstTrace ++ secondTrace, returns_bind firstReturns secondReturns, ?_⟩
  rw [List.filter_append]
  exact congrArg₂ (· ++ ·) firstEvents secondEvents

theorem unseen_bind {program : PortProgram Result} {onward : Result → PortProgram Other}
    {state middle after : State} {first : Result} {second : Other} {events : List (PortEvent State)}
    (firstSeen : ReturnsSeeing device seen program state first middle [])
    (secondSeen : ReturnsSeeing device seen (onward first) middle second after events) :
    ReturnsSeeing device seen (program >>= onward) state second after events :=
  seeing_bind firstSeen secondSeen

theorem seen_bind {program : PortProgram Result} {onward : Result → PortProgram Other}
    {state middle after : State} {first : Result} {second : Other} {event : PortEvent State}
    {events : List (PortEvent State)}
    (firstSeen : ReturnsSeeing device seen program state first middle [event])
    (secondSeen : ReturnsSeeing device seen (onward first) middle second after events) :
    ReturnsSeeing device seen (program >>= onward) state second after (event :: events) :=
  seeing_bind firstSeen secondSeen

theorem seeing_outb (port : UInt16) (value : UInt8) (state : State)
    (kind : seen (.writeByte port value) = true) :
    ReturnsSeeing device seen (outb port value) state () (device.outb state port value)
      [⟨.writeByte port value, state⟩] :=
  ⟨_, returns_outb port value state, by simp [kind]⟩

theorem unseen_outb (port : UInt16) (value : UInt8) (state : State)
    (kind : seen (.writeByte port value) = false) :
    ReturnsSeeing device seen (outb port value) state () (device.outb state port value) [] :=
  ⟨_, returns_outb port value state, by simp [kind]⟩

theorem unseen_outsw (port : UInt16) (words : List UInt16) (state : State)
    (kind : ∀ word, seen (.writeWord port word) = false) :
    ReturnsSeeing device seen (outsw port words) state () (writeWords device port words state).state
      [] := by
  refine ⟨_, returns_outsw port words state, ?_⟩
  induction words generalizing state with
  | nil => rfl
  | cons word words induction =>
      have rest := induction (device.outw state port word)
      simp only [writeWords, List.filter_cons, kind word, Bool.false_eq_true, if_false]
      exact rest

end Seeing

def wordEvents (trace : List (PortEvent State)) : List (PortEvent State) :=
  trace.filter fun event => event.access.isWord

variable (device) in
def ReturnsMoving (program : PortProgram Result) (state : State) (result : Result) (after : State)
    (moves : List (PortEvent State)) : Prop :=
  ∃ trace, Returns device program state ⟨result, after, trace⟩ ∧ wordEvents trace = moves

theorem moving_bind {program : PortProgram Result} {onward : Result → PortProgram Other}
    {state middle after : State} {first : Result} {second : Other}
    {early late : List (PortEvent State)}
    (firstMoves : ReturnsMoving device program state first middle early)
    (secondMoves : ReturnsMoving device (onward first) middle second after late) :
    ReturnsMoving device (program >>= onward) state second after (early ++ late) :=
  @seeing_bind _ _ _ device PortAccess.isWord _ _ _ _ _ _ _ _ _ firstMoves secondMoves

theorem quiet_bind {program : PortProgram Result} {onward : Result → PortProgram Other}
    {state middle after : State} {first : Result} {second : Other}
    {moves : List (PortEvent State)}
    (firstMoves : ReturnsMoving device program state first middle [])
    (secondMoves : ReturnsMoving device (onward first) middle second after moves) :
    ReturnsMoving device (program >>= onward) state second after moves :=
  @unseen_bind _ _ _ device PortAccess.isWord _ _ _ _ _ _ _ _ firstMoves secondMoves

theorem unseen_spin {seen : PortAccess → Bool} {port : UInt16} {again : UInt8 → Bool}
    {state after : State} (moves : ReturnsMoving device (spin port again) state () after [])
    (kind : seen (.readByte port) = false) :
    ReturnsSeeing device seen (spin port again) state () after [] := by
  obtain ⟨trace, returns, -⟩ := moves
  refine ⟨trace, returns, ?_⟩
  rw [List.filter_eq_nil_iff]
  intro event member
  rw [spin_reads returns event member, kind]
  exact Bool.false_ne_true

theorem moving_pure (result : Result) (state : State) :
    ReturnsMoving device (pure result) state result state [] :=
  ⟨[], returns_pure result state, rfl⟩

theorem moving_inb (port : UInt16) (state : State) :
    ReturnsMoving device (inb port) state (device.inb state port).1 (device.inb state port).2 [] :=
  ⟨_, returns_inb port state, rfl⟩

theorem moving_outb (port : UInt16) (value : UInt8) (state : State) :
    ReturnsMoving device (outb port value) state () (device.outb state port value) [] :=
  ⟨_, returns_outb port value state, rfl⟩

theorem read_words_are_words (port : UInt16) (count : Nat) (state : State) :
    wordEvents (readWords device port count state).trace =
      (readWords device port count state).trace := by
  induction count generalizing state with
  | zero => rfl
  | succ count induction => exact congrArg (List.cons _) (induction _)

theorem write_words_are_words (port : UInt16) (words : List UInt16) (state : State) :
    wordEvents (writeWords device port words state).trace =
      (writeWords device port words state).trace := by
  induction words generalizing state with
  | nil => rfl
  | cons word words induction => exact congrArg (List.cons _) (induction _)

theorem moving_insw (port : UInt16) (count : Nat) (state : State) :
    ReturnsMoving device (insw port count) state (readWords device port count state).result
      (readWords device port count state).state (readWords device port count state).trace :=
  ⟨_, returns_insw port count state, read_words_are_words port count state⟩

theorem moving_outsw (port : UInt16) (words : List UInt16) (state : State) :
    ReturnsMoving device (outsw port words) state () (writeWords device port words state).state
      (writeWords device port words state).trace :=
  ⟨_, returns_outsw port words state, write_words_are_words port words state⟩

theorem moving_spin_stop {port : UInt16} {again : UInt8 → Bool} {state : State}
    (stop : again (device.inb state port).1 = false) :
    ReturnsMoving device (spin port again) state () (device.inb state port).2 [] :=
  ⟨_, returns_spin_stop stop, rfl⟩

theorem moving_spin_again {port : UInt16} {again : UInt8 → Bool} {state after : State}
    (repeated : again (device.inb state port).1 = true)
    (rest : ReturnsMoving device (spin port again) (device.inb state port).2 () after []) :
    ReturnsMoving device (spin port again) state () after [] := by
  obtain ⟨trace, returns, events⟩ := rest
  exact ⟨_, returns_spin_again repeated returns, events⟩

def PortAccess.written : PortAccess → Option (UInt16 × UInt8)
  | .writeByte port value => some (port, value)
  | .readByte _ => none
  | .readWord _ => none
  | .writeWord _ _ => none

def byteWrites (trace : List (PortEvent State)) : List (UInt16 × UInt8) :=
  trace.filterMap fun event => event.access.written

/-- Whatever the device, a run of the program writes these bytes and moves so many words. -/
def Emits (program : PortProgram Result) (writes : List (UInt16 × UInt8)) (words : Nat) : Prop :=
  ∀ (State : Type) (device : PortDevice State) (state : State) (outcome : Outcome Result State),
    Returns device program state outcome →
      byteWrites outcome.trace = writes ∧ (wordEvents outcome.trace).length = words

theorem emits_bind {program : PortProgram Result} {onward : Result → PortProgram Other}
    {early late : List (UInt16 × UInt8)} {few more : Nat} (first : Emits program early few)
    (second : ∀ result, Emits (onward result) late more) :
    Emits (program >>= onward) (early ++ late) (few + more) := by
  intro State device state outcome returned
  obtain ⟨reached, rest, inner, later, rfl⟩ := returns_bind_inv returned
  have before := first State device state reached inner
  have after := second reached.result State device reached.state rest later
  simp only [Outcome.after, byteWrites, wordEvents, List.filterMap_append, List.filter_append,
    List.length_append]
  exact ⟨congrArg₂ (· ++ ·) before.1 after.1, congrArg₂ (· + ·) before.2 after.2⟩

theorem emits_silent {program : PortProgram Result} {onward : Result → PortProgram Other}
    {writes : List (UInt16 × UInt8)} {words : Nat} (first : Emits program [] 0)
    (second : ∀ result, Emits (onward result) writes words) :
    Emits (program >>= onward) writes words := by
  have both := emits_bind first second
  rw [List.nil_append, Nat.zero_add] at both
  exact both

theorem emits_pure (result : Result) : Emits (pure result) [] 0 := by
  intro State device state outcome returned
  rw [returns_unique returned (returns_pure result state)]
  exact ⟨rfl, rfl⟩

theorem emits_outb (port : UInt16) (value : UInt8) : Emits (outb port value) [(port, value)] 0 := by
  intro State device state outcome returned
  rw [returns_unique returned (returns_outb port value state)]
  exact ⟨rfl, rfl⟩

theorem emits_written {onward : Unit → PortProgram Other} {writes : List (UInt16 × UInt8)}
    {words : Nat} (port : UInt16) (value : UInt8)
    (second : ∀ result, Emits (onward result) writes words) :
    Emits (outb port value >>= onward) ((port, value) :: writes) words := by
  have both := emits_bind (emits_outb port value) second
  rw [Nat.zero_add] at both
  exact both

theorem emits_spin (port : UInt16) (again : UInt8 → Bool) : Emits (spin port again) [] 0 := by
  intro State device state outcome returned
  have reads := spin_reads returned
  constructor
  · rw [byteWrites, List.filterMap_eq_nil_iff]
    intro event member
    rw [reads event member]
    rfl
  · rw [wordEvents, List.length_eq_zero_iff, List.filter_eq_nil_iff]
    intro event member
    rw [reads event member]
    exact Bool.false_ne_true

theorem read_words_silent (device : PortDevice State) (port : UInt16) (count : Nat)
    (state : State) : byteWrites (readWords device port count state).trace = [] ∧
      (readWords device port count state).trace.length = count := by
  induction count generalizing state with
  | zero => exact ⟨rfl, rfl⟩
  | succ count induction =>
      obtain ⟨silent, length⟩ := induction (device.inw state port).2
      exact ⟨silent, congrArg Nat.succ length⟩

theorem write_words_silent (device : PortDevice State) (port : UInt16) (words : List UInt16)
    (state : State) : byteWrites (writeWords device port words state).trace = [] ∧
      (writeWords device port words state).trace.length = words.length := by
  induction words generalizing state with
  | nil => exact ⟨rfl, rfl⟩
  | cons word words induction =>
      obtain ⟨silent, length⟩ := induction (device.outw state port word)
      exact ⟨silent, congrArg Nat.succ length⟩

theorem emits_insw (port : UInt16) (count : Nat) : Emits (insw port count) [] count := by
  intro State device state outcome returned
  rw [returns_unique returned (returns_insw port count state), read_words_are_words]
  exact read_words_silent device port count state

theorem emits_outsw (port : UInt16) (words : List UInt16) :
    Emits (outsw port words) [] words.length := by
  intro State device state outcome returned
  rw [returns_unique returned (returns_outsw port words state), write_words_are_words]
  exact write_words_silent device port words state

section Aspect

variable {Aspect : Type} (aspect : State → Aspect) (change : Aspect → Aspect)
  (invariant : State → Prop)

theorem read_words_aspect {port : UInt16}
    (one : ∀ state, invariant state → invariant (device.inw state port).2 ∧
      aspect (device.inw state port).2 = change (aspect state))
    (count : Nat) (state : State) (holds : invariant state) :
    invariant (readWords device port count state).state ∧
      aspect (readWords device port count state).state = change^[count] (aspect state) ∧
      (readWords device port count state).trace.map (fun event => aspect event.before) =
        (List.range count).map fun index => change^[index] (aspect state) := by
  induction count generalizing state with
  | zero => exact ⟨holds, rfl, rfl⟩
  | succ count induction =>
      obtain ⟨kept, changed⟩ := one state holds
      obtain ⟨last, final, events⟩ := induction _ kept
      rw [changed] at final events
      refine ⟨last, final, ?_⟩
      rw [List.range_succ_eq_map, List.map_cons, List.map_map]
      exact congrArg (List.cons _) events

theorem write_words_aspect {port : UInt16}
    (one : ∀ state word, invariant state → invariant (device.outw state port word) ∧
      aspect (device.outw state port word) = change (aspect state))
    (words : List UInt16) (state : State) (holds : invariant state) :
    invariant (writeWords device port words state).state ∧
      aspect (writeWords device port words state).state = change^[words.length] (aspect state) ∧
      (writeWords device port words state).trace.map (fun event => aspect event.before) =
        (List.range words.length).map fun index => change^[index] (aspect state) := by
  induction words generalizing state with
  | nil => exact ⟨holds, rfl, rfl⟩
  | cons word words induction =>
      obtain ⟨kept, changed⟩ := one state word holds
      obtain ⟨last, final, events⟩ := induction _ kept
      rw [changed] at final events
      refine ⟨last, final, ?_⟩
      rw [List.length_cons, List.range_succ_eq_map, List.map_cons, List.map_map]
      exact congrArg (List.cons _) events

end Aspect

end Execution

section Serves

variable {State Result : Type} (device : PortDevice State)

/-- Programs run one after the other on a device, each with the device state it
returned in. -/
inductive Serves : State → List (PortProgram Result) → List (Outcome Result State) → Prop where
  | nil (state : State) : Serves state [] []
  | cons {state : State} {program : PortProgram Result} {programs : List (PortProgram Result)}
      {outcome : Outcome Result State} {outcomes : List (Outcome Result State)}
      (first : Returns device program state outcome)
      (rest : Serves outcome.state programs outcomes) :
      Serves state (program :: programs) (outcome :: outcomes)

end Serves

end Library.PortPrograms
