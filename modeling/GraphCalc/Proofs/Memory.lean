import Mathlib.Data.List.Nodup
import GraphCalc.Proofs.Results
import GraphCalc.Store

set_option autoImplicit false

namespace GraphCalc

def Value.FilledList (v : Value) : Prop :=
  (∃ xs, xs ≠ [] ∧ v = .list xs) ∨ ∃ cs, cs ≠ [] ∧ v = .complexList cs

-- The slot exists, and the value is of its kind.
def Slot.Holds : Slot → Value → Prop
  | .variable i, v => i < 27 ∧ ((∃ x, v = .number x) ∨ ∃ c, v = .complex c)
  | .string i, v => i < 10 ∧ ∃ bytes, v = .string bytes
  | .equation i, v => i < 31 ∧ ∃ bytes, v = .string bytes
  | .list i, v => i < 6 ∧ v.FilledList
  | .customList name, v => (1 ≤ name.length ∧ name.length ≤ 5) ∧ v.FilledList
  | .matrix i, v => i < 10 ∧ ∃ m, v = .matrix m

def Slot.name? : Slot → Option String
  | .customList name => some name
  | _ => none

namespace Store

theorem get_put (s : Store) (slot other : Slot) (v : Value) :
    (s.put slot v).get? other = if other = slot then some v else s.get? other := by
  unfold get? put
  by_cases same : other = slot
  · simp [same]
  · rw [if_neg same, List.find?_cons_of_neg (by simpa using Ne.symm same), List.find?_filter]
    congr 2
    funext entry
    by_cases here : entry.1 = other
    · simp [here, same]
    · simp [here]

theorem get_stored (s : Store) (slot : Slot) (v : Value) (stored : s.get? slot = some v) : (slot, v) ∈ s.entries := by
  obtain ⟨⟨found, w⟩, first, rfl⟩ := Option.map_eq_some_iff.mp stored
  have same : found = slot := by simpa using List.find?_some first
  exact same ▸ List.mem_of_find?_eq_some first

theorem get_absent (s : Store) (slot : Slot) : s.get? slot = none ↔ ∀ entry ∈ s.entries, entry.1 ≠ slot := by
  simp [get?]

theorem check_index_ok (index count : UInt8) : checkIndex index count = .ok () ↔ index < count := by
  unfold checkIndex
  split <;> simp_all

theorem check_scalar_ok (v : Value) : checkScalar v = .ok () ↔ (∃ x, v = .number x) ∨ ∃ c, v = .complex c := by
  cases v <;> simp [checkScalar]

theorem check_string_ok (v : Value) : checkString v = .ok () ↔ ∃ bytes, v = .string bytes := by
  cases v <;> simp [checkString]

theorem check_matrix_ok (v : Value) : checkMatrix v = .ok () ↔ ∃ m, v = .matrix m := by
  cases v <;> simp [checkMatrix]

theorem check_list_ok (v : Value) : checkList v = .ok () ↔ v.FilledList := by
  unfold Value.FilledList
  cases v with
  | list xs => cases xs <;> simp [checkList]
  | complexList cs => cases cs <;> simp [checkList]
  | _ => simp [checkList]

def Room (s : Store) (slot : Slot) : Prop :=
  ∀ name, slot = .customList name → s.get? slot = none → s.customListCount < 50

theorem check_name_ok (s : Store) (name : String) :
    s.checkName name = .ok () ↔ (1 ≤ name.length ∧ name.length ≤ 5) ∧ s.Room (.customList name) := by
  unfold checkName
  by_cases length : name.length < 1 ∨ 5 < name.length
  · rw [if_pos length]
    refine ⟨nofun, fun both => ?_⟩
    omega
  · rw [if_neg length]
    by_cases full : (s.get? (.customList name)).isNone ∧ customListLimit ≤ s.customListCount
    · rw [if_pos full]
      refine ⟨nofun, fun both => ?_⟩
      have room := both.2 name rfl (by simpa using full.1)
      exact absurd full.2 (Nat.not_le.mpr room)
    · rw [if_neg full]
      refine ⟨fun _ => ⟨by omega, ?_⟩, fun _ => rfl⟩
      intro _ _ absent
      exact Nat.not_le.mp fun limit => full ⟨by simp [absent], limit⟩

theorem room_elsewhere (s : Store) (slot : Slot) (other : slot.isCustomList = false) : s.Room slot := by
  rintro name rfl
  cases other

theorem check_ok (s : Store) (slot : Slot) (v : Value) : s.check slot v = .ok () ↔ slot.Holds v ∧ s.Room slot := by
  cases slot with
  | customList name => rw [check, both_ok, check_name_ok, check_list_ok, Slot.Holds, and_right_comm]
  | «variable» i =>
      rw [check, both_ok, check_index_ok, check_scalar_ok]
      exact (and_iff_left (s.room_elsewhere _ rfl)).symm
  | string i =>
      rw [check, both_ok, check_index_ok, check_string_ok]
      exact (and_iff_left (s.room_elsewhere _ rfl)).symm
  | equation i =>
      rw [check, both_ok, check_index_ok, check_string_ok]
      exact (and_iff_left (s.room_elsewhere _ rfl)).symm
  | list i =>
      rw [check, both_ok, check_index_ok, check_list_ok]
      exact (and_iff_left (s.room_elsewhere _ rfl)).symm
  | matrix i =>
      rw [check, both_ok, check_index_ok, check_matrix_ok]
      exact (and_iff_left (s.room_elsewhere _ rfl)).symm

inductive Call where
  | set (slot : Slot) (v : Value)
  | clear

def call (s : Store) : Call → Store
  | .set slot v => (s.assign slot v).2
  | .clear => empty

def after (s : Store) (calls : List Call) : Store := calls.foldl call s

theorem assign_answer (s : Store) (slot : Slot) (v : Value) : (s.assign slot v).1 = s.check slot v := by
  rw [assign]
  cases s.check slot v with
  | error e => rfl
  | ok _ => rfl

theorem assign_refused (s : Store) (slot : Slot) (v : Value) (e : Cause) (refused : (s.assign slot v).1 = .error e) :
    (s.assign slot v).2 = s := by
  rw [assign_answer] at refused
  rw [assign, refused]

theorem assign_accepted (s : Store) (slot : Slot) (v : Value) (accepted : (s.assign slot v).1 = .ok ()) :
    (s.assign slot v).2 = s.put slot v := by
  rw [assign_answer] at accepted
  rw [assign, accepted]

theorem set_checked (s : Store) (slot : Slot) (v : Value) :
    s.set slot v = (s.check slot v).map fun _ => s.put slot v := by
  rw [set, assign]
  cases s.check slot v with
  | error e => rfl
  | ok _ => rfl

-- Every slot has one entry, of its kind, and the custom lists are within their limit.
structure Legal (s : Store) : Prop where
  distinct : (s.entries.map (·.1)).Nodup
  held : ∀ entry ∈ s.entries, entry.1.Holds entry.2
  limited : s.customListCount ≤ 50

theorem empty_legal : empty.Legal := ⟨List.nodup_nil, nofun, Nat.zero_le _⟩

-- Where the slot has an entry, that entry makes room for the new one.
theorem put_count (s : Store) (slot : Slot) (v : Value) (room : s.Room slot) (limited : s.customListCount ≤ 50) :
    (s.put slot v).customListCount ≤ 50 := by
  have others : (s.entries.filter (·.1 != slot)).countP (·.1.isCustomList) ≤ s.customListCount :=
    List.filter_sublist.countP_le
  unfold put customListCount
  rw [List.countP_cons]
  dsimp only
  cases custom : slot.isCustomList with
  | false =>
      rw [if_neg Bool.false_ne_true]
      omega
  | true =>
      rw [if_pos rfl]
      cases stored : s.get? slot with
      | none =>
          obtain ⟨name, rfl⟩ : ∃ name, slot = .customList name := by
            cases slot <;> first | exact ⟨_, rfl⟩ | cases custom
          have := room name rfl stored
          omega
      | some w =>
          have replaced : 0 < (s.entries.filter (·.1 == slot)).countP (·.1.isCustomList) :=
            List.countP_pos_iff.mpr ⟨(slot, w), by simpa using s.get_stored slot w stored, custom⟩
          have split := List.countP_eq_countP_filter_add s.entries (·.1.isCustomList) (·.1 != slot)
          simp only [bne, Bool.not_not] at split
          unfold customListCount at limited
          simp only [bne] at others ⊢
          omega

theorem put_legal (s : Store) (slot : Slot) (v : Value) (legal : s.Legal) (fits : slot.Holds v) (room : s.Room slot) :
    (s.put slot v).Legal := by
  refine ⟨?_, ?_, s.put_count slot v room legal.limited⟩
  · unfold put
    rw [List.map_cons, List.nodup_cons]
    refine ⟨by simp, ?_⟩
    exact legal.distinct.sublist (List.filter_sublist.map _)
  · intro entry member
    rcases List.mem_cons.mp member with rfl | older
    · exact fits
    · exact legal.held entry (List.mem_of_mem_filter older)

theorem call_legal (s : Store) (c : Call) (legal : s.Legal) : (s.call c).Legal := by
  cases c with
  | clear => exact empty_legal
  | set slot v =>
      cases answer : (s.assign slot v).1 with
      | error e =>
          rw [call, s.assign_refused slot v e answer]
          exact legal
      | ok _ =>
          obtain ⟨fits, room⟩ := (s.check_ok slot v).mp ((s.assign_answer slot v).symm.trans answer)
          rw [call, s.assign_accepted slot v answer]
          exact s.put_legal slot v legal fits room

theorem after_legal (s : Store) (calls : List Call) (legal : s.Legal) : (s.after calls).Legal := by
  induction calls generalizing s with
  | nil => exact legal
  | cons c rest ih => exact ih _ (s.call_legal c legal)

def names (s : Store) : List String := s.entries.filterMap (·.1.name?)

theorem name_some (slot : Slot) (name : String) : slot.name? = some name ↔ slot = .customList name := by
  cases slot <;> simp [Slot.name?]

theorem mem_names (s : Store) (name : String) : name ∈ s.names ↔ s.get? (.customList name) ≠ none := by
  rw [Ne, get_absent]
  simp only [names, List.mem_filterMap, name_some]
  grind

theorem names_nodup (s : Store) (legal : s.Legal) : s.names.Nodup := by
  have same : s.names = (s.entries.map (·.1)).filterMap Slot.name? := by
    rw [names, List.filterMap_map]
    rfl
  rw [same]
  refine legal.distinct.filterMap ?_
  intro slot slot' name first second
  rw [Option.mem_def, name_some] at first second
  exact first.trans second.symm

theorem names_length (s : Store) : s.names.length = s.customListCount := by
  rw [names, List.length_filterMap_eq_countP, customListCount]
  congr 1
  funext entry
  cases entry.1 <;> rfl

theorem memory_after_calls (calls : List Call) :
    let s := empty.after calls
    (∀ slot v, s.get? slot = some v → slot.Holds v) ∧
      (∃ names : List String, names.Nodup ∧ names.length ≤ 50 ∧
        (∀ name, name ∈ names ↔ s.get? (.customList name) ≠ none) ∧
        ∀ slot v, (s.assign slot v).1 = .ok () ↔
          slot.Holds v ∧ ∀ name, slot = .customList name → name ∉ names → names.length < 50) ∧
      (∀ slot v e, (s.assign slot v).1 = .error e → (s.assign slot v).2 = s) ∧
      (∀ slot v, (s.assign slot v).1 = .ok () →
        (s.assign slot v).2.get? slot = some v ∧
          ∀ other, other ≠ slot → (s.assign slot v).2.get? other = s.get? other) ∧
      ∀ name v, s.get? (.customList name) ≠ none → v.FilledList →
        (s.assign (.customList name) v).1 = .ok () := by
  intro s
  have legal : s.Legal := empty.after_legal calls empty_legal
  have holds (slot : Slot) (v : Value) (stored : s.get? slot = some v) : slot.Holds v :=
    legal.held _ (s.get_stored slot v stored)
  have accepted (slot : Slot) (v : Value) : (s.assign slot v).1 = .ok () ↔ slot.Holds v ∧ s.Room slot := by
    rw [assign_answer, check_ok]
  refine ⟨holds, ⟨s.names, s.names_nodup legal, ?_, s.mem_names, ?_⟩, s.assign_refused, ?_, ?_⟩
  · rw [names_length]
    exact legal.limited
  · intro slot v
    rw [accepted]
    refine and_congr_right fun _ => forall_congr' fun name => forall_congr' fun same => ?_
    rw [same, mem_names, not_not, names_length]
  · intro slot v done
    rw [s.assign_accepted slot v done]
    refine ⟨by rw [get_put, if_pos rfl], fun other different => ?_⟩
    rw [get_put, if_neg different]
  · intro name v stored filled
    obtain ⟨w, present⟩ := Option.ne_none_iff_exists'.mp stored
    refine (accepted _ v).mpr ⟨⟨(holds _ w present).1, filled⟩, ?_⟩
    intro _ _ absent
    exact absurd absent stored

def fullCalls : List Call :=
  (List.range 50).map fun i => .set (.customList (String.singleton (Char.ofNat (0x41 + i)))) (.list [0])

theorem full_memory_replaces_list :
    let s := empty.after fullCalls
    s.customListCount = 50 ∧ s.get? (.customList "A") = some (.list [0]) ∧
      (s.assign (.customList "NEW") (.list [0])).1 = .error .tooManyLists ∧
      (s.assign (.customList "NEW") (.list [0])).2.get? (.customList "A") = some (.list [0]) ∧
      (s.assign (.customList "A") (.list [0, 0])).1 = .ok () ∧
      (s.assign (.customList "A") (.list [0, 0])).2.get? (.customList "A") = some (.list [0, 0]) ∧
      (s.assign (.customList "A") (.list [0, 0])).2.get? (.customList "B") = s.get? (.customList "B") := by
  intro s
  have reached : s.customListCount = 50 ∧ s.get? (.customList "A") = some (.list [0]) ∧
      (s.assign (.customList "NEW") (.list [0])).1 = .error .tooManyLists := by decide +kernel
  obtain ⟨full, stored, refused⟩ := reached
  obtain ⟨_, _, unchanged, changed, replaced⟩ := memory_after_calls fullCalls
  have done := replaced "A" (.list [0, 0]) (by rw [stored]; exact nofun) (Or.inl ⟨[0, 0], by simp, rfl⟩)
  obtain ⟨own, others⟩ := changed _ _ done
  refine ⟨full, stored, refused, ?_, done, own, others _ (by decide)⟩
  rw [unchanged _ _ _ refused, stored]

end Store

end GraphCalc
