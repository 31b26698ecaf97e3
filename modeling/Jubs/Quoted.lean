/-
**Enumerations of quoted names.**

A message that enumerates things often puts the name of each between quotes and says something about
it behind them.  A name may hold quotes of its own, so such a text cannot be read back part by part;
but it can be cut at every quote, and what it is cut into tells two enumerations apart whose names
are chosen among the same ones.

Main definitions:

* `Cut.quotedParts` — what the part of one name is cut into.

Main results:

* `Cut.segments_quoted` — an enumeration, cut at its quotes;
* `Cut.filter_eq_of_quotedParts` — **two choices that are cut into the same parts are the same**,
  where the first takes at most one name that the second leaves out.
-/

import Jubs.Cut
import Mathlib.Data.List.Nodup

set_option autoImplicit false

namespace Cut

variable {α : Type} {name tail : α → String}

/-- An enumeration with its separator behind every part. -/
theorem intercalate_append_self {l : List String} (h : l ≠ []) (s : String) :
    String.intercalate s l ++ s = String.join (l.map (· ++ s)) := by
  induction l with
  | nil => exact absurd rfl h
  | cons t l ih =>
      by_cases hl : l = []
      · subst hl
        simp
      · rw [String.intercalate_cons_of_ne_nil hl, List.map_cons, String.join_cons, ← ih hl]
        simp only [String.append_assoc]

/-- The parts a quoted name and what stands behind it are cut into at the quotes. -/
def quotedParts (name tail : α → String) (a : α) : List String :=
  segments '"' (name a) ++ [tail a]

/-- **An enumeration of quoted names, cut at its quotes.** -/
theorem segments_quoted (htail : ∀ a, '"' ∉ (tail a).toList) (l : List α) {x : String}
    (hx : '"' ∉ x.toList) :
    segments '"' (x ++ String.join (l.map fun a => "\"" ++ name a ++ "\"" ++ tail a)) =
      x :: l.flatMap (quotedParts name tail) := by
  induction l generalizing x with
  | nil => simpa using segments_of_not_mem hx
  | cons a l ih =>
      have hjoin : x ++ String.join ((a :: l).map fun a => "\"" ++ name a ++ "\"" ++ tail a) =
          join '"' x (join '"' (name a) (tail a ++
            String.join (l.map fun a => "\"" ++ name a ++ "\"" ++ tail a))) := by
        rw [← String.toList_inj]
        simp [toList_join]
      rw [hjoin, segments_join, segments_join, segments_of_not_mem hx, ih (htail a)]
      simp [quotedParts]

/-- A text that is cut into itself alone is that text. -/
theorem eq_of_mem_segments {s t : String} (hmem : t ∈ segments '"' s)
    (hone : (segments '"' s).length ≤ 1) : s = t := by
  by_cases h : '"' ∈ s.toList
  · obtain ⟨a, b, hab⟩ := List.append_of_mem h
    have hs : s = join '"' (String.ofList a) (String.ofList b) := by
      rw [← String.toList_inj, toList_join, hab, String.toList_ofList, String.toList_ofList]
    have hne : ∀ u, segments '"' u ≠ [] := fun u hnil => by
      simp [segments] at hnil
    have ha := List.length_pos_of_ne_nil (hne (String.ofList a))
    have hb := List.length_pos_of_ne_nil (hne (String.ofList b))
    rw [hs, segments_join, List.length_append] at hone
    omega
  · rw [segments_of_not_mem h] at hmem
    exact (List.mem_singleton.1 hmem).symm

/-- Of two lists that are cut into the same parts, one with names `out` alone, all distinct, and one
without that name, nothing is in either. -/
theorem eq_nil_of_quotedParts {dropped added : List α} {out : String} (hquote : '"' ∉ out.toList)
    (htail : ∀ s, tail s ≠ out) (hdistinct : (dropped.map name).Nodup)
    (hdropped : ∀ s ∈ dropped, name s = out) (hadded : ∀ s ∈ added, name s ≠ out)
    (h : (dropped.flatMap (quotedParts name tail)).Perm (added.flatMap (quotedParts name tail))) :
    dropped = [] ∧ added = [] := by
  match dropped with
  | [] =>
      have hnil := List.nil_perm.1 h
      cases added with
      | nil => exact ⟨rfl, rfl⟩
      | cons s rest => simp [quotedParts] at hnil
  | [s] =>
      have hname : name s = out := hdropped s List.mem_cons_self
      have hparts : [s].flatMap (quotedParts name tail) = [out, tail s] := by
        simp [quotedParts, hname, segments_of_not_mem hquote]
      rw [hparts] at h
      -- the name is a part of something added, which has no room for more than it and its tail
      obtain ⟨t, ht, hmem⟩ := List.mem_flatMap.1 (h.mem_iff.1 List.mem_cons_self)
      have hlength : (quotedParts name tail t).length ≤ 2 := by
        rw [← show [out, tail s].length = 2 from rfl, h.length_eq]
        exact (List.sublist_flatten_of_mem (List.mem_map_of_mem ht)).length_le
      rw [quotedParts, List.length_append, List.length_singleton] at hlength
      rcases List.mem_append.1 hmem with hmem | hmem
      · exact absurd (eq_of_mem_segments hmem (by omega)) (hadded t ht)
      · exact absurd (List.mem_singleton.1 hmem).symm (htail t)
  | s :: s' :: rest =>
      have hs := hdropped s List.mem_cons_self
      have hs' := hdropped s' (List.mem_cons_of_mem _ List.mem_cons_self)
      simp [hs, hs'] at hdistinct

/-- **Two choices among distinct names are cut into the same parts only when they are the same**,
where the first takes nothing that the second leaves out but one name, and the second leaves that
name out. -/
theorem filter_eq_of_quotedParts {a b : α → Bool} {l : List α} {out : String}
    (hdistinct : (l.map name).Nodup) (hquote : '"' ∉ out.toList) (htail : ∀ s, tail s ≠ out)
    (hout : ∀ s ∈ l, b s = true → name s ≠ out)
    (hamong : ∀ s ∈ l, a s = true → b s = false → name s = out)
    (h : ((l.filter a).flatMap (quotedParts name tail)).Perm
      ((l.filter b).flatMap (quotedParts name tail))) : l.filter a = l.filter b := by
  -- what the two choices share is cut into the same parts, and so is what they do not
  have hrest : (((l.filter a).filter fun s => !b s).flatMap (quotedParts name tail)).Perm
      (((l.filter b).filter fun s => !a s).flatMap (quotedParts name tail)) := by
    have ha := (List.filter_append_perm b (l.filter a)).flatMap_right (quotedParts name tail)
    have hb := (List.filter_append_perm a (l.filter b)).flatMap_right (quotedParts name tail)
    have hcomm : (l.filter b).filter a = (l.filter a).filter b := by
      rw [List.filter_filter, List.filter_filter]
      exact List.filter_congr fun s _ => Bool.and_comm _ _
    rw [List.flatMap_append] at ha hb
    rw [hcomm] at hb
    exact (List.perm_append_left_iff _).1 (ha.trans (h.trans hb.symm))
  obtain ⟨hdropped, hadded⟩ := eq_nil_of_quotedParts hquote htail
    (hdistinct.sublist ((List.filter_sublist.trans List.filter_sublist).map name))
    (fun s hs => by
      obtain ⟨hs, hb⟩ := List.mem_filter.1 hs
      obtain ⟨hl, ha⟩ := List.mem_filter.1 hs
      exact hamong s hl ha (by simpa using hb))
    (fun s hs => by
      obtain ⟨hl, hb⟩ := List.mem_filter.1 (List.mem_filter.1 hs).1
      exact hout s hl hb) hrest
  refine List.filter_congr ?_
  intro s hs
  have ha : a s = true → b s = true := fun ha => by
    simpa using List.filter_eq_nil_iff.1 hdropped s (List.mem_filter.2 ⟨hs, ha⟩)
  have hb : b s = true → a s = true := fun hb => by
    simpa using List.filter_eq_nil_iff.1 hadded s (List.mem_filter.2 ⟨hs, hb⟩)
  exact Bool.eq_iff_iff.2 ⟨ha, hb⟩

end Cut
