import Mathlib

/-!
# Ordered maps as lists

The entries of an ordered map, in the order of iteration, are the one sorted list that
says what the lookups of the map say.
-/

namespace OrderedMap

variable {K V W : Type*} {cmp : K → K → Ordering} [Std.TransCmp cmp]

theorem eq_of_ordered {xs ys : List (K × W)}
    (hxs : xs.Pairwise fun a b => cmp a.1 b.1 = .lt)
    (hys : ys.Pairwise fun a b => cmp a.1 b.1 = .lt) (h : ∀ e, e ∈ xs ↔ e ∈ ys) : xs = ys := by
  have hnodup {zs : List (K × W)} (hzs : zs.Pairwise fun a b => cmp a.1 b.1 = .lt) :
      zs.Nodup := by
    refine hzs.imp fun {a b} hlt heq => ?_
    subst heq
    simp [Std.ReflCmp.compare_self] at hlt
  have hperm := (List.perm_ext_iff_of_nodup (hnodup hxs) (hnodup hys)).mpr h
  refine hperm.eq_of_pairwise (fun a b _ _ hab hba => ?_) hxs hys
  exact (Std.OrientedCmp.not_lt_of_lt hab hba).elim

/-- The iteration shows a sorted list exactly when the lookups do. -/
theorem toList_map_eq_iff [Std.LawfulEqCmp cmp] (map : Std.ExtTreeMap K V cmp) (f : V → W)
    {entries : List (K × W)} (hentries : entries.Pairwise fun a b => cmp a.1 b.1 = .lt) :
    map.toList.map (fun e => (e.1, f e.2)) = entries ↔
      ∀ key value, (key, value) ∈ entries ↔ map[key]?.map f = some value := by
  have hmem : ∀ key value, (key, value) ∈ map.toList.map (fun e => (e.1, f e.2)) ↔
      map[key]?.map f = some value := by
    intro key value
    rw [List.mem_map, Option.map_eq_some_iff]
    constructor
    · rintro ⟨⟨key', value'⟩, he, heq⟩
      obtain ⟨rfl, rfl⟩ := Prod.mk.inj heq
      exact ⟨value', Std.ExtTreeMap.mem_toList_iff_getElem?_eq_some.mp he, rfl⟩
    · rintro ⟨value', hvalue', rfl⟩
      exact ⟨(key, value'), Std.ExtTreeMap.mem_toList_iff_getElem?_eq_some.mpr hvalue', rfl⟩
  constructor
  · rintro rfl
    exact hmem
  · intro h
    have hordered : (map.toList.map fun e => (e.1, f e.2)).Pairwise
        fun a b => cmp a.1 b.1 = .lt :=
      List.pairwise_map.mpr Std.ExtTreeMap.ordered_keys_toList
    exact eq_of_ordered hordered hentries fun e => (hmem e.1 e.2).trans (h e.1 e.2).symm

end OrderedMap
