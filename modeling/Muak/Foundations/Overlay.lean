import Mathlib.Data.List.Induction
import Mathlib.Order.Nat

/-!
# Layered images

An image is a list of layers, the lowest first. A layer has files at some paths, where the last one
of several counts, and it hides paths of the layers below it.

* `merge`: the image that the layers make.
* `merge_eq_some_iff`: a file is part of it if no later layer has its path or hides it.
* `flatMap_drop_eq_merge_iff`: when the files at a path of all layers from some layer on are just
  the one that is part of the image.
-/

namespace Muak.Overlay

open List Nat

variable {P F : Type} {i : ℕ}

/-- The files of a layer, and the paths that it hides below. -/
structure Layer (P F : Type) where
  files : P → List F
  hides : P → Bool

/-- A layer over an image. -/
def Layer.over (layer : Layer P F) (image : P → Option F) (path : P) : Option F :=
  match (layer.files path).getLast? with
  | some file => some file
  | none => if layer.hides path then none else image path

/-- The image that the layers make. -/
def merge (layers : List (Layer P F)) : P → Option F :=
  layers.foldl (fun image layer => layer.over image) fun _ => none

/-- A layer after the `i`-th has the path or hides it. -/
def Replaced (layers : List (Layer P F)) (i : ℕ) (path : P) : Prop :=
  ∃ j layer, i < j ∧ layers[j]? = some layer ∧ (layer.files path ≠ [] ∨ layer.hides path = true)

variable {layers : List (Layer P F)} {path : P} {layer : Layer P F}

theorem merge_concat (layers : List (Layer P F)) (layer : Layer P F) :
    merge (layers ++ [layer]) = layer.over (merge layers) := by
  rw [merge, foldl_append]
  rfl

theorem getElem?_concat_eq_some {layer above : Layer P F}
    (h : (layers ++ [layer])[i]? = some above) :
    layers[i]? = some above ∨ i = layers.length ∧ above = layer := by
  rcases lt_trichotomy i layers.length with hlt | rfl | hgt
  · rw [getElem?_append_left hlt] at h
    exact .inl h
  · rw [getElem?_concat_length] at h
    exact .inr ⟨rfl, (Option.some.inj h).symm⟩
  · rw [getElem?_eq_none (by rw [length_append, length_singleton]; omega)] at h
    cases h

theorem ne_nil_of_getLast? {files : List F} {file : F} (h : files.getLast? = some file) :
    files ≠ [] := by
  rintro rfl
  cases h

theorem replaced_concat_iff (hi : i < layers.length) : Replaced (layers ++ [layer]) i path ↔
      Replaced layers i path ∨ layer.files path ≠ [] ∨ layer.hides path = true := by
  constructor
  · rintro ⟨j, above, hlt, hj, hr⟩
    rcases getElem?_concat_eq_some hj with hj | ⟨-, rfl⟩
    · exact .inl ⟨j, above, hlt, hj, hr⟩
    · exact .inr hr
  · rintro (⟨j, above, hlt, hj, hr⟩ | hr)
    · have hl := (List.getElem?_eq_some_iff.1 hj).1
      exact ⟨j, above, hlt, by rw [getElem?_append_left hl, hj], hr⟩
    · exact ⟨layers.length, layer, hi, getElem?_concat_length, hr⟩

theorem not_replaced_length (layer : Layer P F) :
    ¬Replaced (layers ++ [layer]) layers.length path := by
  rintro ⟨j, above, hlt, hj, -⟩
  have hl := (List.getElem?_eq_some_iff.1 hj).1
  rw [length_append, length_singleton] at hl
  omega

/-- A file is part of the image if no later layer has its path or hides it. -/
theorem merge_eq_some_iff {file : F} :
    merge layers path = some file ↔ ∃ i layer, layers[i]? = some layer ∧
      (layer.files path).getLast? = some file ∧ ¬Replaced layers i path := by
  induction layers using reverseRecOn with
  | nil => exact ⟨fun h => (by cases h), fun ⟨i, layer, h, _⟩ => (by cases h)⟩
  | append_singleton layers layer ih =>
    rw [merge_concat, Layer.over]
    cases hf : (layer.files path).getLast? with
    | some last =>
      constructor
      · intro h
        cases h
        exact ⟨layers.length, layer, getElem?_concat_length, hf, not_replaced_length layer⟩
      · rintro ⟨i, above, hi, hl, hk⟩
        rcases getElem?_concat_eq_some hi with hi | ⟨-, rfl⟩
        · -- the last layer has the path, so nothing below it counts
          exact absurd ((replaced_concat_iff (List.getElem?_eq_some_iff.1 hi).1).2
            (.inr (.inl (ne_nil_of_getLast? hf)))) hk
        · exact hf.symm.trans hl
    | none =>
      have hn : layer.files path = [] := getLast?_eq_none_iff.1 hf
      by_cases hh : layer.hides path = true
      · rw [if_pos hh]
        refine ⟨fun h => (by cases h), ?_⟩
        rintro ⟨i, above, hi, hl, hk⟩
        rcases getElem?_concat_eq_some hi with hi | ⟨-, rfl⟩
        · exact absurd ((replaced_concat_iff (List.getElem?_eq_some_iff.1 hi).1).2
            (.inr (.inr hh))) hk
        · exact absurd hn (ne_nil_of_getLast? hl)
      · rw [if_neg hh, ih]
        constructor
        · rintro ⟨i, above, hi, hl, hk⟩
          have hlt := (List.getElem?_eq_some_iff.1 hi).1
          refine ⟨i, above, by rw [getElem?_append_left hlt, hi], hl, fun hr => ?_⟩
          rcases (replaced_concat_iff hlt).1 hr with hb | hne | ht
          · exact hk hb
          · exact hne hn
          · exact hh ht
        · rintro ⟨i, above, hi, hl, hk⟩
          rcases getElem?_concat_eq_some hi with hi | ⟨-, rfl⟩
          · exact ⟨i, above, hi, hl, fun hb =>
              hk ((replaced_concat_iff (List.getElem?_eq_some_iff.1 hi).1).2 (.inl hb))⟩
          · exact absurd hn (ne_nil_of_getLast? hl)

/-- A layer whose path is not replaced has a file that is part of the image. -/
theorem exists_merge_eq_some (hi : layers[i]? = some layer) (hne : layer.files path ≠ [])
    (hr : ¬Replaced layers i path) : ∃ file, merge layers path = some file :=
  ⟨_, merge_eq_some_iff.2 ⟨i, layer, hi, getLast?_eq_some_getLast hne, hr⟩⟩

/-! ## The files from some layer on -/

theorem flatMap_drop_eq (f : Layer P F → List F) {t i : ℕ} (h : t ≤ i)
    (hi : layers[i]? = some layer) : (layers.drop t).flatMap f =
      ((layers.drop t).take (i - t)).flatMap f ++ (f layer ++ (layers.drop (i + 1)).flatMap f) := by
  obtain ⟨hlt, rfl⟩ := List.getElem?_eq_some_iff.1 hi
  have hs := take_append_drop (i - t) (layers.drop t)
  rw [drop_drop, Nat.add_sub_cancel' h, drop_eq_getElem_cons hlt] at hs
  rw [← flatMap_cons, ← flatMap_append, hs]

theorem mem_drop_iff {α : Type} {xs : List α} {x : α} {t : ℕ} :
    x ∈ xs.drop t ↔ ∃ i, t ≤ i ∧ xs[i]? = some x := by
  rw [mem_iff_getElem?]
  constructor
  · rintro ⟨d, hd⟩
    rw [getElem?_drop] at hd
    exact ⟨t + d, le_add_right _ _, hd⟩
  · rintro ⟨i, hle, hi⟩
    exact ⟨i - t, by rw [getElem?_drop, Nat.add_sub_cancel' hle, hi]⟩

/-- Two layers that have the path give two files. -/
theorem two_le_length_flatMap {t i j : ℕ} {layer above : Layer P F} (ht : t ≤ i) (hij : i < j)
    (hi : layers[i]? = some layer) (hj : layers[j]? = some above) (hl : layer.files path ≠ [])
    (ha : above.files path ≠ []) : 2 ≤ ((layers.drop t).flatMap (·.files path)).length := by
  have hrest : (layers.drop (i + 1)).flatMap (·.files path) ≠ [] := fun hn =>
    ha (flatMap_eq_nil_iff.1 hn above (mem_drop_iff.2 ⟨j, hij, hj⟩))
  rw [flatMap_drop_eq _ ht hi, length_append, length_append]
  have hf := length_pos_iff.2 hl
  have hs := length_pos_iff.2 hrest
  omega

/-- The files at a path from the `t`-th layer on are the one of the image, if there is one, and
nothing else: if they are replaced exactly in the layers before, and are there only once after. -/
theorem flatMap_drop_eq_merge_iff {t : ℕ} :
    (layers.drop t).flatMap (·.files path) = (merge layers path).toList ↔
      ∀ i layer, layers[i]? = some layer → layer.files path ≠ [] →
        (i < t ↔ Replaced layers i path) ∧ (1 < (layer.files path).length → i < t) := by
  constructor
  · intro heq i layer hi hne
    have hle : ((layers.drop t).flatMap (·.files path)).length ≤ 1 := by
      rw [heq]
      cases merge layers path
      · exact zero_le _
      · exact le_rfl
    refine ⟨⟨fun hlt => ?_, fun hr => ?_⟩, fun ht => ?_⟩
    · -- were it not replaced, it would be reported
      by_contra hkp
      obtain ⟨file, hfl⟩ := exists_merge_eq_some hi hne hkp
      have hmm : file ∈ (layers.drop t).flatMap (·.files path) := by
        rw [heq, hfl]
        exact mem_singleton_self _
      obtain ⟨above, ha, hin⟩ := mem_flatMap.1 hmm
      obtain ⟨j, hj, hget⟩ := mem_drop_iff.1 ha
      exact hkp ⟨j, above, hlt.trans_le hj, hget, .inl (ne_nil_of_mem hin)⟩
    · by_contra hge
      have hmm : layer ∈ layers.drop t := mem_drop_iff.2 ⟨i, Nat.le_of_not_lt hge, hi⟩
      obtain ⟨file, hfl⟩ : ∃ file, merge layers path = some file := by
        cases hm : merge layers path with
        | some file => exact ⟨file, rfl⟩
        | none =>
          rw [hm] at heq
          exact absurd (flatMap_eq_nil_iff.1 heq layer hmm) hne
      obtain ⟨k, below, hk, hls, hkp⟩ := merge_eq_some_iff.1 hfl
      have hf := ne_nil_of_getLast? hls
      rcases lt_trichotomy k i with hlt | rfl | hlt
      · exact hkp ⟨i, layer, hlt, hi, .inl hne⟩
      · exact hkp hr
      · have htw := two_le_length_flatMap (Nat.le_of_not_lt hge) hlt hi hk hne hf
        omega
    · by_contra hge
      rw [flatMap_drop_eq _ (Nat.le_of_not_lt hge) hi, length_append, length_append] at hle
      omega
  · intro hal
    cases hm : merge layers path with
    | none =>
      refine flatMap_eq_nil_iff.2 fun layer hl => ?_
      by_contra hne
      obtain ⟨i, hle, hi⟩ := mem_drop_iff.1 hl
      have hkp : ¬Replaced layers i path := fun hr =>
        not_lt.2 hle ((hal i layer hi hne).1.2 hr)
      obtain ⟨file, hfl⟩ := exists_merge_eq_some hi hne hkp
      rw [hm] at hfl
      cases hfl
    | some file =>
      obtain ⟨i, layer, hi, hls, hkp⟩ := merge_eq_some_iff.1 hm
      have hne := ne_nil_of_getLast? hls
      obtain ⟨hr, ht⟩ := hal i layer hi hne
      have hge : t ≤ i := Nat.le_of_not_lt fun hlt => hkp (hr.1 hlt)
      have hb : ((layers.drop t).take (i - t)).flatMap (·.files path) = [] := by
        refine flatMap_eq_nil_iff.2 fun below hbl => ?_
        by_contra hf
        obtain ⟨d, hd⟩ := mem_iff_getElem?.1 hbl
        have hlt := (List.getElem?_eq_some_iff.1 hd).1
        rw [length_take] at hlt
        rw [getElem?_take_of_lt (by omega), getElem?_drop] at hd
        -- it would be replaced by the layer whose file counts
        have hag := (hal (t + d) below hd hf).1.2 ⟨i, layer, by omega, hi, .inl hne⟩
        omega
      have haf : (layers.drop (i + 1)).flatMap (·.files path) = [] := by
        refine flatMap_eq_nil_iff.2 fun above ha => ?_
        by_contra hf
        obtain ⟨j, hj, hget⟩ := mem_drop_iff.1 ha
        exact hkp ⟨j, above, hj, hget, .inl hf⟩
      have hs : layer.files path = [file] := by
        have ho : (layer.files path).length = 1 := by
          have hp := length_pos_iff.2 hne
          omega
        obtain ⟨single, hs⟩ := length_eq_one_iff.1 ho
        rw [hs] at hls
        cases hls
        exact hs
      rw [flatMap_drop_eq _ hge hi, hb, haf, hs]
      rfl

end Muak.Overlay
