import LocalCache.Stats
import LocalCache.WireFields

namespace LocalCache.StatsCodec

open Protocol Serializer Library

/-- A STATS payload with any number of values: their count, then the values. -/
def payload (values : List UInt64) : Bytes :=
  BigEndian.bytes 2 values.length ++ values.flatMap (fun v => BigEndian.bytes 8 v.toNat)

def declared (input : Bytes) : Nat := 2 + 8 * BigEndian.value (input.take 2)

variable {s t : StatsSnapshot} {values : List UInt64}

theorem fields_injective (h : s.fields = t.fields) : s = t := by
  cases s
  cases t
  simpa [StatsSnapshot.fields] using h

theorem length_fields (s : StatsSnapshot) : s.fields.length = 14 := rfl

theorem fields_setField (s : StatsSnapshot) (i : Nat) (value : UInt64) :
    (s.setField i value).fields = s.fields.set i value := by
  match i with
  | 0 | 1 | 2 | 3 | 4 | 5 | 6 | 7 | 8 | 9 | 10 | 11 | 12 | 13 => rfl
  | i + 14 => rfl

theorem fields_foldl (read : Nat → UInt64) (out : StatsSnapshot) (n : Nat) (hn : n ≤ 14) :
    ((List.range n).foldl (fun out i => out.setField i (read i)) out).fields =
      (List.range n).map read ++ out.fields.drop n := by
  induction n with
  | zero => rfl
  | succ n ih =>
    have hlt : n < out.fields.length := by
      rw [length_fields]
      omega
    rw [List.range_succ, List.foldl_append, List.foldl_cons, List.foldl_nil, fields_setField,
      ih (by omega), List.map_append, List.map_singleton, List.append_assoc,
      List.set_append_right _ _ (by simp), List.length_map, List.length_range, Nat.sub_self,
      List.drop_eq_getElem_cons hlt, List.set_cons_zero]
    rfl

theorem readU64_values (values : List UInt64) (rest : Bytes) (i : Nat) (hi : i < values.length) :
    readU64 ((values.flatMap (fun v => BigEndian.bytes 8 v.toNat) ++ rest).drop (8 * i)) =
      values[i] := by
  induction values generalizing i with
  | nil => cases hi
  | cons v values ih =>
    rw [List.flatMap_cons, List.append_assoc]
    cases i with
    | zero => exact WireFields.readU64_bytes v _
    | succ i =>
      rw [Nat.mul_succ, Nat.add_comm, ← List.drop_drop,
        List.drop_left' (BigEndian.length_bytes 8 v.toNat)]
      exact ih i (Nat.lt_of_succ_lt_succ hi)

theorem length_payload (values : List UInt64) :
    (payload values).length = 2 + 8 * values.length := by
  induction values with
  | nil => rfl
  | cons v values ih =>
    simp only [payload, List.length_append, BigEndian.length_bytes, List.flatMap_cons,
      List.length_cons] at ih ⊢
    omega

theorem map_read (values : List UInt64) (rest : Bytes) (n : Nat) (hn : n ≤ values.length) :
    (List.range n).map (fun i => readU64 ((payload values ++ rest).drop (2 + i * 8))) =
      values.take n := by
  apply List.ext_getElem
  · simp [hn]
  · intro i hi hi'
    rw [List.length_map, List.length_range] at hi
    rw [List.getElem_map, List.getElem_range, List.getElem_take, payload, List.append_assoc,
      ← readU64_values values rest i (by omega), Nat.mul_comm]
    rw [← List.drop_drop]
    rfl

theorem deserializeStats_eq (input : Bytes) (out : StatsSnapshot) :
    deserializeStats input out =
      if input.length < 2 ∨ input.length < declared input then (false, out)
      else (true, (List.range (min (BigEndian.value (input.take 2)) 14)).foldl
        (fun out i => out.setField i (readU64 (input.drop (2 + i * 8)))) out) := by
  by_cases hshort : input.length < 2
  · rw [deserializeStats, if_pos hshort, if_pos (.inl hshort)]
  · have hcount := WireFields.toNat_readU16 input (Nat.le_of_not_lt hshort)
    simp only [deserializeStats, declared, hshort, if_false, false_or, hcount, length_fields,
      Nat.mul_comm 8]

theorem value_payload (hm : values.length ≤ 65535) (rest : Bytes) :
    BigEndian.value ((payload values ++ rest).take 2) = values.length := by
  have hlt : values.length < 256 ^ 2 := Nat.lt_succ_of_le hm
  rw [payload, List.append_assoc, List.take_left' (BigEndian.length_bytes 2 values.length),
    BigEndian.value_bytes_of_lt hlt]

theorem deserializeStats_payload (hm : values.length ≤ 65535) (rest : Bytes)
    (out : StatsSnapshot) :
    ∃ s, deserializeStats (payload values ++ rest) out = (true, s) ∧
      s.fields = values.take 14 ++ out.fields.drop values.length := by
  have hlong : ¬((payload values ++ rest).length < 2 ∨
      (payload values ++ rest).length < declared (payload values ++ rest)) := by
    rw [declared, value_payload hm, List.length_append, length_payload]
    omega
  rw [deserializeStats_eq, if_neg hlong, value_payload hm]
  refine ⟨_, rfl, ?_⟩
  rw [fields_foldl _ out _ (Nat.min_le_right _ _), map_read values rest _ (Nat.min_le_left _ _)]
  obtain hle | hle := Nat.le_total values.length 14
  · rw [Nat.min_eq_left hle, List.take_length, List.take_of_length_le hle]
  · rw [Nat.min_eq_right hle, List.drop_of_length_le (length_fields out).le,
      List.drop_of_length_le hle]

theorem foldl_appendU64 (values : List UInt64) (out : Bytes) :
    values.foldl appendU64 out = out ++ values.flatMap (fun v => BigEndian.bytes 8 v.toNat) := by
  induction values generalizing out with
  | nil => exact (List.append_nil out).symm
  | cons v values ih =>
    rw [List.foldl_cons, ih, WireFields.appendU64_eq, List.flatMap_cons, List.append_assoc]

theorem serializeStats_eq (s : StatsSnapshot) : serializeStats s = payload s.fields := by
  rw [serializeStats, foldl_appendU64, WireFields.appendU16_eq]
  rfl

theorem deserializeStats_serialize (s out : StatsSnapshot) :
    deserializeStats (serializeStats s) out = (true, s) := by
  have hm : s.fields.length ≤ 65535 := by
    rw [length_fields]
    decide
  obtain ⟨t, ht, hfields⟩ := deserializeStats_payload hm [] out
  rw [List.append_nil, ← serializeStats_eq] at ht
  rw [ht, fields_injective (hfields.trans (List.append_nil _))]

/-- What one side sends the other understands, whichever of them knows more fields, and nothing
is written unless the payload is as long as it declares. -/
theorem stats_tolerant :
    (∀ (values : List UInt64) (rest : Bytes) (out : StatsSnapshot), values.length ≤ 65535 →
      ∃ s, deserializeStats (payload values ++ rest) out = (true, s) ∧
        s.fields = values.take 14 ++ out.fields.drop values.length) ∧
      (∀ (input : Bytes) (out : StatsSnapshot),
        ((deserializeStats input out).1 = false ↔
          input.length < 2 ∨ input.length < declared input) ∧
        ((deserializeStats input out).1 = false → (deserializeStats input out).2 = out)) ∧
      ∀ s out : StatsSnapshot, deserializeStats (serializeStats s) out = (true, s) := by
  refine ⟨fun values rest out hm => deserializeStats_payload hm rest out, fun input out => ?_,
    deserializeStats_serialize⟩
  rw [deserializeStats_eq]
  by_cases hshort : input.length < 2 ∨ input.length < declared input
  · rw [if_pos hshort]
    exact ⟨iff_of_true rfl hshort, fun _ => rfl⟩
  · rw [if_neg hshort]
    exact ⟨iff_of_false (by simp) hshort, fun h => by cases h⟩

end LocalCache.StatsCodec
