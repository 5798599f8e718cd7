import Mathlib.Data.List.Basic
import Mathlib.Tactic.Ring

/-! Streams of fixed-size records: the complete blocks at the front of a list,
the elements after them, and a flat array which collects a stream piece by
piece. -/
namespace RecordStream

variable {α : Type*}

/-- The complete blocks of `size` elements, in order. -/
def blocks (size : ℕ) (stream : List α) : List (List α) :=
  (List.range (stream.length / size)).map fun i => (stream.drop (i * size)).take size

/-- The elements after the last complete block. -/
def remainder (size : ℕ) (stream : List α) : List α :=
  stream.drop (stream.length / size * size)

theorem remainder_length (size : ℕ) (stream : List α) :
    (remainder size stream).length = stream.length % size := by
  rw [remainder, List.length_drop, Nat.mod_eq_sub_div_mul]

theorem remainder_length_lt {size : ℕ} (hSize : 0 < size) (stream : List α) :
    (remainder size stream).length < size := by
  rw [remainder_length]
  exact Nat.mod_lt _ hSize

theorem blocks_of_length_lt {size : ℕ} {stream : List α} (hShort : stream.length < size) :
    blocks size stream = [] := by
  rw [blocks, Nat.div_eq_of_lt hShort, List.range_zero, List.map_nil]

theorem remainder_of_length_lt {size : ℕ} {stream : List α} (hShort : stream.length < size) :
    remainder size stream = stream := by
  rw [remainder, Nat.div_eq_of_lt hShort, zero_mul, List.drop_zero]

/-- A front part of `count` whole blocks splits off. -/
theorem blocks_append_of_length {size count : ℕ} (hSize : 0 < size) (front back : List α)
    (hFront : front.length = count * size) :
    blocks size (front ++ back) = blocks size front ++ blocks size back := by
  have hCount : front.length / size = count := by
    rw [hFront, Nat.mul_div_cancel count hSize]
  have hTotal : (front ++ back).length / size = count + back.length / size := by
    rw [List.length_append, hFront, Nat.add_comm, Nat.add_mul_div_right _ _ hSize, Nat.add_comm]
  rw [blocks, blocks, blocks, hTotal, hCount, List.range_add, List.map_append, List.map_map]
  congr 1
  · apply List.map_congr_left
    intro i hi
    have hEnd : i * size + size ≤ front.length := by
      have hSucc := Nat.mul_le_mul_right size (Nat.succ_le_of_lt (List.mem_range.mp hi))
      rw [hFront]
      simpa [Nat.succ_mul] using hSucc
    rw [List.drop_append_of_le_length (by omega), List.take_append_of_le_length]
    rw [List.length_drop]
    omega
  · apply List.map_congr_left
    intro i _
    have hStart : (count + i) * size = front.length + i * size := by
      rw [hFront, Nat.add_mul]
    rw [Function.comp_apply, hStart, List.drop_length_add_append]

theorem remainder_append_of_length {size count : ℕ} (hSize : 0 < size) (front back : List α)
    (hFront : front.length = count * size) :
    remainder size (front ++ back) = remainder size back := by
  have hTotal : (front ++ back).length / size = count + back.length / size := by
    rw [List.length_append, hFront, Nat.add_comm, Nat.add_mul_div_right _ _ hSize, Nat.add_comm]
  rw [remainder, remainder, hTotal, Nat.add_mul, ← hFront, List.drop_length_add_append]

/-- The whole blocks of a stream, as one list in front of the remainder. -/
theorem take_append_remainder (size : ℕ) (stream : List α) :
    stream.take (stream.length / size * size) ++ remainder size stream = stream :=
  List.take_append_drop _ _

theorem take_blocks_length (size : ℕ) (stream : List α) :
    (stream.take (stream.length / size * size)).length = stream.length / size * size :=
  List.length_take_of_le (Nat.div_mul_le_self _ _)

theorem blocks_take (size : ℕ) (hSize : 0 < size) (stream : List α) :
    blocks size (stream.take (stream.length / size * size)) = blocks size stream := by
  conv_rhs => rw [← take_append_remainder size stream]
  rw [blocks_append_of_length hSize _ _ (take_blocks_length size stream),
    blocks_of_length_lt (remainder_length_lt hSize stream), List.append_nil]

/-- Only the remainder has to be kept when more of the stream arrives. -/
theorem blocks_append {size : ℕ} (hSize : 0 < size) (stream more : List α) :
    blocks size (stream ++ more) =
      blocks size stream ++ blocks size (remainder size stream ++ more) := by
  conv_lhs => rw [← take_append_remainder size stream, List.append_assoc]
  rw [blocks_append_of_length hSize _ _ (take_blocks_length size stream), blocks_take size hSize]

theorem remainder_append {size : ℕ} (hSize : 0 < size) (stream more : List α) :
    remainder size (stream ++ more) = remainder size (remainder size stream ++ more) := by
  conv_lhs => rw [← take_append_remainder size stream, List.append_assoc]
  exact remainder_append_of_length hSize _ _ (take_blocks_length size stream)

/-- The blocks of a stream made of whole records are the records. -/
theorem blocks_flatten {size : ℕ} (hSize : 0 < size) (records : List (List α))
    (hLength : ∀ record ∈ records, record.length = size) :
    blocks size records.flatten = records := by
  induction records with
  | nil => exact blocks_of_length_lt (by simpa using hSize)
  | cons record rest ih =>
      have hRecord : record.length = 1 * size := by
        rw [hLength record (List.mem_cons_self ..), one_mul]
      have hOne : blocks size record = [record] := by
        rw [blocks, hRecord, Nat.mul_div_cancel 1 hSize]
        simp [List.take_of_length_le (hRecord.trans (one_mul size)).le]
      rw [List.flatten_cons, blocks_append_of_length hSize _ _ hRecord, hOne,
        ih fun r hr => hLength r (List.mem_cons_of_mem _ hr), List.singleton_append]

/-- The blocks of a prefix are a prefix of the blocks. -/
theorem blocks_prefix {size : ℕ} (hSize : 0 < size) {front stream : List α}
    (hPrefix : front <+: stream) :
    blocks size front = (blocks size stream).take (front.length / size) := by
  obtain ⟨more, rfl⟩ := hPrefix
  rw [blocks_append hSize, List.take_append_of_le_length, List.take_of_length_le] <;> simp [blocks]

section Array

/-- `length` elements of an array from `start` on. -/
def load (data : ℕ → α) (start length : ℕ) : List α :=
  (List.range length).map fun i => data (start + i)

/-- The array after a write of a list at `start`. -/
def store (data : ℕ → α) (start : ℕ) (values : List α) : ℕ → α :=
  fun i => if start ≤ i then values.getD (i - start) (data i) else data i

@[simp] theorem load_length (data : ℕ → α) (start length : ℕ) :
    (load data start length).length = length := by
  rw [load, List.length_map, List.length_range]

theorem load_add (data : ℕ → α) (start first second : ℕ) :
    load data start (first + second) = load data start first ++ load data (start + first) second := by
  rw [load, List.range_add, List.map_append, List.map_map]
  congr 1
  apply List.map_congr_left
  intro i _
  rw [Function.comp_apply, Nat.add_assoc]

theorem drop_load (data : ℕ → α) (start first second : ℕ) :
    (load data start (first + second)).drop first = load data (start + first) second := by
  rw [load_add, List.drop_left' (load_length ..)]

theorem take_load (data : ℕ → α) (start first second : ℕ) :
    (load data start (first + second)).take first = load data start first := by
  rw [load_add, List.take_left' (load_length ..)]

theorem load_store_below (data : ℕ → α) (start : ℕ) (values : List α) :
    load (store data start values) 0 start = load data 0 start := by
  apply List.map_congr_left
  intro i hi
  have hLt := List.mem_range.mp hi
  rw [store, if_neg (by omega)]

theorem load_store (data : ℕ → α) (start : ℕ) (values : List α) :
    load (store data start values) start values.length = values := by
  apply List.ext_getElem (load_length ..)
  intro i hi hi'
  simp [load, store, hi']

/-- Writing at the end of the used part appends. -/
theorem load_store_append (data : ℕ → α) (used : ℕ) (values : List α) :
    load (store data used values) 0 (used + values.length) = load data 0 used ++ values := by
  rw [load_add, load_store_below, Nat.zero_add, load_store]

end Array

end RecordStream
