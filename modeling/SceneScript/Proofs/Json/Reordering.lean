import SceneScript.Proofs.Json.RoundTrip

/-!
# Members in another order

`JsonValue.Reorders` relates values that differ in nothing but the order in which objects list their
members, in the value itself and in the members of members. Arrays do not take part: their items
keep their places, and objects among them their order.
-/

namespace SceneScript.JsonValue

/-- The second value is the first one with the members of some objects in another order. -/
inductive Reorders : JsonValue → JsonValue → Prop
  | refl (v : JsonValue) : Reorders v v
  | trans {u v w : JsonValue} (huv : Reorders u v) (hvw : Reorders v w) : Reorders u w
  | perm {ms ms' : List (List Char × JsonValue)} (h : ms.Perm ms') :
    Reorders (object ms) (object ms')
  | member (ms ms' : List (List Char × JsonValue)) (key : List Char) {v v' : JsonValue}
    (h : Reorders v v') : Reorders (object (ms ++ (key, v) :: ms')) (object (ms ++ (key, v') :: ms'))

variable {v v' : JsonValue}

/-- Only objects are reordered. -/
theorem Reorders.eq_or_object (h : Reorders v v') :
    v = v' ∨ ∃ ms ms', v = object ms ∧ v' = object ms' := by
  induction h with
  | refl v => exact .inl rfl
  | trans huv hvw ihuv ihvw =>
    rcases ihuv with rfl | ⟨ms, ms', rfl, rfl⟩
    · exact ihvw
    · rcases ihvw with rfl | ⟨_, ms'', _, rfl⟩
      · exact .inr ⟨ms, ms', rfl, rfl⟩
      · exact .inr ⟨ms, ms'', rfl, rfl⟩
  | perm h => exact .inr ⟨_, _, rfl, rfl⟩
  | member ms ms' key h ih => exact .inr ⟨_, _, rfl, rfl⟩

/-- The spellings are the same in any order. -/
theorem Reorders.isSpelled (h : Reorders v v') (hv : v.IsSpelled) : v'.IsSpelled := by
  induction h with
  | refl v => exact hv
  | trans huv hvw ihuv ihvw => exact ihvw (ihuv hv)
  | perm h =>
    cases hv with
    | object hkeys hvalues =>
      exact .object (fun m hm => hkeys m (h.mem_iff.2 hm)) fun m hm => hvalues m (h.mem_iff.2 hm)
  | member ms ms' key h ih =>
    cases hv with
    | object hkeys hvalues =>
      rw [List.forall_mem_append, List.forall_mem_cons] at hkeys hvalues
      refine .object ?_ ?_
      · rw [List.forall_mem_append, List.forall_mem_cons]
        exact hkeys
      · rw [List.forall_mem_append, List.forall_mem_cons]
        exact ⟨hvalues.1, ih hvalues.2.1, hvalues.2.2⟩

end SceneScript.JsonValue
