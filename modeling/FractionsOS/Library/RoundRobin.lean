import Mathlib.Data.List.Nodup

/-!
# Rotations of a growing group

Turns go round a group whose members are numbered from 0 on. New members may join
at the end between any two turns, also when the round has passed them or is about
to start over. Each turn is given with the size of the group at that moment.
-/

namespace Library.RoundRobin

set_option autoImplicit false

structure Turn where
  member : Nat
  size : Nat

/-- The turns that may follow a turn of `member` in a group of `size`. -/
def Rotation (member size : Nat) : List Turn → Prop
  | [] => True
  | turn :: turns =>
      size ≤ turn.size ∧ turn.member = (member + 1) % turn.size ∧ Rotation turn.member turn.size turns

variable {member size : Nat}

theorem rotation_grown {grown : Nat} (le : size ≤ grown) {later : List Turn}
    (rotation : Rotation member grown later) : Rotation member size later := by
  cases later with
  | nil => trivial
  | cons turn later => exact ⟨Nat.le_trans le rotation.1, rotation.2⟩

theorem rotation_prefix {first second : List Turn}
    (rotation : Rotation member size (first ++ second)) : Rotation member size first := by
  induction first generalizing member size with
  | nil => trivial
  | cons turn first induction => exact ⟨rotation.1, rotation.2.1, induction rotation.2.2⟩

theorem rotation_step {turn : Turn} {turns : List Turn} (inside : member < size)
    (rotation : Rotation member size (turn :: turns)) : turn.member < turn.size := by
  rw [rotation.2.1]
  exact Nat.mod_lt _ (Nat.lt_of_lt_of_le (Nat.zero_lt_of_lt inside) rotation.1)

theorem rotation_suffix {turn : Turn} {before after : List Turn}
    (inside : member < size) (rotation : Rotation member size (before ++ turn :: after)) :
    turn.member < turn.size ∧ Rotation turn.member turn.size after := by
  induction before generalizing member size with
  | nil => exact ⟨rotation_step inside rotation, rotation.2.2⟩
  | cons first before induction => exact induction (rotation_step inside rotation) rotation.2.2

/-- Once the round has started over, the turns go up to the member. -/
theorem turns_below {target current final : Nat} {turns : List Turn} (below : current < target)
    (inGroup : target < size) (rotation : Rotation current size (turns ++ [⟨target, final⟩]))
    (absent : target ∉ turns.map Turn.member) :
    turns.map Turn.member = List.range' (current + 1) (target - (current + 1)) := by
  induction turns generalizing current size with
  | nil =>
      have grown := rotation.1
      have next := rotation.2.1
      dsimp only at grown next
      rw [Nat.mod_eq_of_lt (by omega)] at next
      rw [next, Nat.sub_self]
      rfl
  | cons turn turns induction =>
      rcases rotation with ⟨grown, next, rest⟩
      rw [Nat.mod_eq_of_lt (by omega)] at next
      rw [List.map_cons, List.mem_cons, not_or] at absent
      rw [next] at rest absent
      have above := induction (by omega) (by omega) rest absent.2
      have count : target - (current + 1) = target - (current + 1 + 1) + 1 := by omega
      rw [List.map_cons, next, above, count]
      rfl

/-- Between two turns of a member the round goes up to the size the group has when it
starts over, and then up to the member. -/
theorem turns_between {target current final : Nat} {turns : List Turn}
    (above : target ≤ current) (inGroup : current < size)
    (rotation : Rotation current size (turns ++ [⟨target, final⟩]))
    (absent : target ∉ turns.map Turn.member) :
    ∃ last, size ≤ last ∧
      turns.map Turn.member = List.range' (current + 1) (last - (current + 1)) ++ List.range target := by
  induction turns generalizing current size with
  | nil =>
      have grown := rotation.1
      have next := rotation.2.1
      dsimp only at grown next
      have wrapped : current + 1 = final := by
        by_contra inside
        rw [Nat.mod_eq_of_lt (by omega)] at next
        omega
      rw [wrapped, Nat.mod_self] at next
      refine ⟨final, grown, ?_⟩
      rw [next, wrapped, Nat.sub_self]
      rfl
  | cons turn turns induction =>
      rcases rotation with ⟨grown, next, rest⟩
      rw [List.map_cons, List.mem_cons, not_or] at absent
      by_cases inside : current + 1 < turn.size
      · rw [Nat.mod_eq_of_lt inside] at next
        rw [next] at rest
        rcases induction (by omega) inside rest absent.2 with ⟨last, large, round⟩
        refine ⟨last, Nat.le_trans grown large, ?_⟩
        have count : last - (current + 1) = last - (current + 1 + 1) + 1 := by omega
        rw [List.map_cons, next, round, count]
        rfl
      · have wrapped : current + 1 = turn.size := by omega
        rw [wrapped, Nat.mod_self] at next
        rw [next] at rest absent
        have positive : 0 < target := Nat.pos_of_ne_zero absent.1
        have below := turns_below positive (by omega) rest absent.2
        have count : target = target - 1 + 1 := by omega
        refine ⟨turn.size, grown, ?_⟩
        rw [List.map_cons, next, below, wrapped, Nat.sub_self, List.range'_zero, List.nil_append,
          List.range_eq_range']
        conv_rhs => rw [count]
        rfl

/-- Between two consecutive turns of a member nobody has two turns, and everybody else
who was in the group at the first of them has one. -/
theorem fair_between {target final : Nat} {turns : List Turn} (inGroup : target < size)
    (rotation : Rotation target size (turns ++ [⟨target, final⟩]))
    (absent : target ∉ turns.map Turn.member) :
    (turns.map Turn.member).Nodup ∧ ∀ other, other < size → other ≠ target →
      other ∈ turns.map Turn.member := by
  rcases turns_between (Nat.le_refl target) inGroup rotation absent with ⟨last, large, round⟩
  rw [round]
  constructor
  · rw [List.nodup_append']
    refine ⟨List.nodup_range', List.nodup_range, ?_⟩
    intro other upper lower
    rw [List.mem_range'_1] at upper
    rw [List.mem_range] at lower
    omega
  · intro other member different
    rw [List.mem_append, List.mem_range'_1, List.mem_range]
    omega

theorem rotation_sizes {turn : Turn} {before after : List Turn}
    (rotation : Rotation member size (before ++ turn :: after)) : size ≤ turn.size := by
  induction before generalizing member size with
  | nil => exact rotation.1
  | cons first before induction => exact Nat.le_trans rotation.1 (induction rotation.2.2)

/-- How many turns pass at most until a member has one, in a group of at most `bound`. -/
def waiting (bound current target : Nat) : Nat :=
  if current < target then target - current else bound - current + target

theorem absent_short {bound target current : Nat} {turns : List Turn}
    (small : ∀ turn ∈ turns, turn.size ≤ bound) (inGroup : current < size)
    (member : target < size) (within : size ≤ bound) (rotation : Rotation current size turns)
    (absent : target ∉ turns.map Turn.member) : turns.length < waiting bound current target := by
  induction turns generalizing current size with
  | nil =>
      unfold waiting
      split_ifs
      · exact Nat.sub_pos_of_lt (by assumption)
      · change 0 < _
        omega
  | cons turn turns induction =>
      have inside := rotation_step inGroup rotation
      rcases rotation with ⟨grown, next, rest⟩
      rw [List.map_cons, List.mem_cons, not_or] at absent
      have sizes := small turn List.mem_cons_self
      have shorter := induction (fun other later => small other (List.mem_cons_of_mem turn later))
        inside (Nat.lt_of_lt_of_le member grown) sizes rest absent.2
      have passed : waiting bound turn.member target + 1 ≤ waiting bound current target := by
        have different := absent.1
        rw [next] at different ⊢
        unfold waiting
        by_cases wraps : current + 1 < turn.size
        · rw [Nat.mod_eq_of_lt wraps] at different ⊢
          split_ifs
          all_goals omega
        · have start : current + 1 = turn.size := by omega
          rw [start, Nat.mod_self] at different ⊢
          split_ifs
          all_goals omega
      rw [List.length_cons]
      omega

/-- Among as many turns as the group ever has members, everybody who was in it has one. -/
theorem turn_within {bound target current : Nat} {turns : List Turn}
    (small : ∀ turn ∈ turns, turn.size ≤ bound) (inGroup : current < size)
    (member : target < size) (within : size ≤ bound) (rotation : Rotation current size turns)
    (enough : bound ≤ turns.length) : target ∈ turns.map Turn.member := by
  by_contra absent
  have short := absent_short small inGroup member within rotation absent
  unfold waiting at short
  split_ifs at short
  all_goals omega

/-- So of any number of turns everybody has at least the share of a group of that size. -/
theorem share_of_turns {bound target current : Nat} {turns : List Turn}
    (small : ∀ turn ∈ turns, turn.size ≤ bound) (inGroup : current < size)
    (member : target < size) (within : size ≤ bound) (rotation : Rotation current size turns) :
    turns.length / bound ≤ (turns.map Turn.member).count target := by
  induction rounds : turns.length / bound generalizing turns current size with
  | zero => exact Nat.zero_le _
  | succ rounds induction =>
      have positive : 0 < bound := Nat.lt_of_lt_of_le (Nat.zero_lt_of_lt member) within
      have long : bound ≤ turns.length := by
        by_contra short
        rw [Nat.div_eq_of_lt (Nat.lt_of_not_le short)] at rounds
        cases rounds
      have counted := (Nat.div_eq_sub_div positive long).symm.trans rounds
      -- one turn of the first round, and the share of the others
      have split := List.take_append_drop bound turns
      have whole := rotation
      rw [← split] at rotation
      have firstRound := rotation_prefix rotation
      have length : (turns.take bound).length = bound := List.length_take_of_le long
      have first : target ∈ (turns.take bound).map Turn.member := by
        apply turn_within _ inGroup member within firstRound (Nat.le_of_eq length.symm)
        exact fun turn taken => small turn (List.mem_of_mem_take taken)
      have last : ∃ before turn, turns.take bound = before ++ [turn] := by
        have some : turns.take bound ≠ [] := by
          rw [← List.length_pos_iff, length]
          exact positive
        exact ⟨_, _, (List.dropLast_append_getLast some).symm⟩
      rcases last with ⟨before, turn, taken⟩
      have joined : turns = before ++ turn :: turns.drop bound := by
        conv_lhs => rw [← split, taken, List.append_assoc]
        rfl
      rw [joined] at whole
      rcases rotation_suffix inGroup whole with ⟨inside, later⟩
      have turnTaken : turn ∈ turns := by
        rw [joined]
        exact List.mem_append_right before List.mem_cons_self
      have rest := induction (fun other dropped => small other (List.mem_of_mem_drop dropped))
        inside (Nat.lt_of_lt_of_le member (rotation_sizes whole)) (small turn turnTaken) later
        (by rw [List.length_drop]; exact Nat.succ.inj counted)
      rw [← split, List.map_append, List.count_append]
      have one := List.count_pos_iff.mpr first
      omega

end Library.RoundRobin
