import QuantumRelay.Exchange.Message
import Mathlib.Data.List.Sort
import Mathlib.Logic.Relation

/-!
# Which requests belong together

A list of requests links a circuit to all that it names, directly or through circuits of the list
(`Linked`). A circuit is `Settled` if all that it is linked to is in the list and is linked back to it.
Then what it is linked to, its `component`, depends on nothing else.

When the list grows by one request, the component of the new one may become settled, and nothing else
changes (`settled_append`). So which circuits are settled in the end does not depend on the order in
which requests come (`settled_congr`).
-/

namespace QuantumRelay.RunRequest

variable {rs rs' : List RunRequest} {r : RunRequest} {id x y : String}

def Refers (rs : List RunRequest) (a b : String) : Prop := ∃ r ∈ rs, r.id = a ∧ b ∈ r.peers

/-- A circuit is named from another one on, directly or through circuits of the list. -/
abbrev Linked (rs : List RunRequest) : String → String → Prop :=
  Relation.ReflTransGen (Refers rs)

/-- A circuit relays with another one, directly or through others, whoever of them names whom. -/
abbrev Related (rs : List RunRequest) : String → String → Prop :=
  Relation.ReflTransGen fun a b => Refers rs a b ∨ Refers rs b a

/-- All that a circuit is linked to is in the list and is linked back. -/
def Settled (rs : List RunRequest) (id : String) : Prop :=
  ∀ x, Linked rs id x → x ∈ rs.map (·.id) ∧ Linked rs x id

open Classical in
/-- The requests that a circuit is linked to, in the order of their circuits. -/
noncomputable def component (rs : List RunRequest) (id : String) : List RunRequest :=
  (rs.filter fun r => Linked rs id r.id).mergeSort fun a b => a.id ≤ b.id

/-! ### The same requests -/

theorem refers_congr (h : ∀ r, r ∈ rs ↔ r ∈ rs') : Refers rs = Refers rs' := by
  funext a b
  simp only [Refers, h]

theorem settled_congr (h : ∀ r, r ∈ rs ↔ r ∈ rs') : Settled rs id ↔ Settled rs' id := by
  simp only [Settled, Linked, refers_congr h, List.mem_map, h]

theorem linked_of_related (hback : ∀ a b, Refers rs a b → Linked rs b a) (h : Related rs x y) :
    Linked rs x y := by
  induction h with
  | refl => exact .refl
  | tail _ hb ih =>
    rcases hb with hb | hb
    · exact ih.tail hb
    · exact ih.trans (hback _ _ hb)

theorem linked_symm (hback : ∀ a b, Refers rs a b → Linked rs b a) (h : Linked rs x y) :
    Linked rs y x := by
  induction h with
  | refl => exact .refl
  | tail _ hb ih => exact (hback _ _ hb).trans ih

theorem mem_of_linked (hnamed : ∀ a b, Refers rs a b → b ∈ rs.map (·.id))
    (hid : id ∈ rs.map (·.id)) (h : Linked rs id x) : x ∈ rs.map (·.id) := by
  induction h with
  | refl => exact hid
  | tail _ hb _ => exact hnamed _ _ hb

/-! ### Settled circuits -/

namespace Settled

theorem mem (h : Settled rs id) : id ∈ rs.map (·.id) := (h id .refl).1

theorem linked (h : Settled rs id) (hx : Linked rs id x) : Settled rs x := fun y hy =>
  ⟨(h y (hx.trans hy)).1, (h y (hx.trans hy)).2.trans hx⟩

theorem linked_iff (h : Settled rs id) (hx : Linked rs id x) : Linked rs x y ↔ Linked rs id y :=
  ⟨hx.trans, (h x hx).2.trans⟩

end Settled

/-! ### One more request -/

theorem linked_append (h : Linked rs x y) (r : RunRequest) : Linked (rs ++ [r]) x y :=
  Relation.ReflTransGen.mono (p := Refers (rs ++ [r]))
    (fun _ _ ⟨q, hq, heq⟩ => ⟨q, List.mem_append_left _ hq, heq⟩) x y h

theorem linked_of_append (h : Linked (rs ++ [r]) x y) : Linked rs x y ∨ Linked rs x r.id := by
  induction h with
  | refl => exact .inl .refl
  | tail _ hb ih =>
    rcases ih with ih | ih
    · obtain ⟨q, hq, rfl, hpeer⟩ := hb
      rcases List.mem_append.1 hq with hq | hq
      · exact .inl (ih.tail ⟨q, hq, rfl, hpeer⟩)
      · obtain rfl := List.mem_singleton.1 hq
        exact .inr ih
    · exact .inr ih

theorem Settled.linked_append_iff (h : Settled rs id) (hr : r.id ∉ rs.map (·.id)) :
    Linked (rs ++ [r]) id x ↔ Linked rs id x := by
  refine ⟨fun hx => ?_, fun hx => linked_append hx r⟩
  exact (linked_of_append hx).resolve_right fun hnew => hr (h r.id hnew).1

theorem Settled.append (h : Settled rs id) (hr : r.id ∉ rs.map (·.id)) :
    Settled (rs ++ [r]) id := by
  intro x hx
  obtain ⟨hmem, hback⟩ := h x ((h.linked_append_iff hr).1 hx)
  rw [List.map_append]
  exact ⟨List.mem_append_left _ hmem, linked_append hback r⟩

/-- A new request settles its own component, or nothing. -/
theorem settled_append (hr : r.id ∉ rs.map (·.id)) : Settled (rs ++ [r]) id ↔
    Settled rs id ∨ (Settled (rs ++ [r]) r.id ∧ Linked (rs ++ [r]) r.id id) := by
  constructor
  · intro h
    by_cases hnew : Linked (rs ++ [r]) id r.id
    · exact .inr ⟨h.linked hnew, (h r.id hnew).2⟩
    -- Nothing goes through the new circuit, so nothing is new.
    · have hold {x y : String} (hx : Linked (rs ++ [r]) id x) (hxy : Linked (rs ++ [r]) x y) :
          Linked rs x y :=
        (linked_of_append hxy).resolve_right fun hthrough =>
          hnew (hx.trans (linked_append hthrough r))
      refine .inl fun x hx => ?_
      obtain ⟨hmem, hback⟩ := h x (linked_append hx r)
      rw [List.map_append, List.mem_append, List.map_singleton, List.mem_singleton] at hmem
      refine ⟨hmem.resolve_right ?_, hold (linked_append hx r) hback⟩
      rintro rfl
      exact hnew (linked_append hx r)
  · rintro (h | ⟨h, hx⟩)
    · exact h.append hr
    · exact h.linked hx

/-! ### Components -/

theorem mem_component_iff : r ∈ component rs id ↔ r ∈ rs ∧ Linked rs id r.id := by
  simp only [component, List.mem_mergeSort, List.mem_filter, decide_eq_true_iff]

theorem component_sorted (h : (rs.map (·.id)).Nodup) :
    (component rs id).Pairwise fun a b => a.id < b.id := by
  have hle : (component rs id).Pairwise fun a b => decide (a.id ≤ b.id) = true := by
    refine List.pairwise_mergeSort (fun a b c hab hbc => ?_) (fun a b => ?_) _
    · exact decide_eq_true (String.le_trans (of_decide_eq_true hab) (of_decide_eq_true hbc))
    · simpa using String.le_total a.id b.id
  have hne : (component rs id).Pairwise fun a b => a.id ≠ b.id := by
    refine List.pairwise_map.1 (?_ : ((component rs id).map (·.id)).Nodup)
    unfold component
    rw [((List.mergeSort_perm _ _).map _).nodup_iff]
    exact h.sublist (List.filter_sublist.map _)
  refine (List.pairwise_and_iff.2 ⟨hle, hne⟩).imp fun ⟨hle, hne⟩ => ?_
  exact String.not_le.1 fun hge => hne (String.le_antisymm (of_decide_eq_true hle) hge)

theorem eq_component {group : List RunRequest} (h : (rs.map (·.id)).Nodup)
    (hsorted : group.Pairwise fun a b => a.id < b.id)
    (hmem : ∀ r, r ∈ group ↔ r ∈ rs ∧ Linked rs id r.id) : group = component rs id := by
  have : Std.Irrefl fun a b : RunRequest => a.id < b.id := ⟨fun a => String.lt_irrefl a.id⟩
  have : Std.Antisymm fun a b : RunRequest => a.id < b.id :=
    ⟨fun a b hab hba => absurd (String.lt_trans hab hba) (String.lt_irrefl a.id)⟩
  refine List.Pairwise.eq_of_mem_iff hsorted (component_sorted h) fun r => ?_
  rw [hmem, mem_component_iff]

theorem component_congr (hnodup : (rs.map (·.id)).Nodup) (hnodup' : (rs'.map (·.id)).Nodup)
    (h : ∀ r, r ∈ rs ↔ r ∈ rs') : component rs id = component rs' id := by
  refine eq_component hnodup' (component_sorted hnodup) fun r => ?_
  rw [mem_component_iff, h, Linked, refers_congr h]

/-- A settled component stays as it is when a request comes. -/
theorem Settled.component_append (h : Settled rs id)
    (hnodup : ((rs ++ [r]).map (·.id)).Nodup) :
    component (rs ++ [r]) id = component rs id := by
  rw [List.map_append, List.nodup_append] at hnodup
  obtain ⟨hrs, -, hne⟩ := hnodup
  have hr : r.id ∉ rs.map (·.id) := fun hmem => hne _ hmem _ List.mem_cons_self rfl
  refine eq_component hrs (component_sorted ?_) fun q => ?_
  · rw [List.map_append, List.nodup_append]
    exact ⟨hrs, List.nodup_singleton _, hne⟩
  · rw [mem_component_iff, h.linked_append_iff hr, List.mem_append, List.mem_singleton]
    refine ⟨fun ⟨hq, hlinked⟩ => ⟨hq.resolve_right ?_, hlinked⟩, fun hq => ⟨.inl hq.1, hq.2⟩⟩
    rintro rfl
    exact hr (h q.id hlinked).1

theorem Settled.component_eq (h : Settled rs id) (hnodup : (rs.map (·.id)).Nodup)
    (hx : Linked rs id x) : component rs x = component rs id := by
  refine eq_component hnodup (component_sorted hnodup) fun q => ?_
  rw [mem_component_iff, h.linked_iff hx]

/-! ### A part of a list -/

section part

variable (hsub : ∀ r ∈ rs', r ∈ rs) (hnodup : (rs.map (·.id)).Nodup)

include hsub hnodup in
theorem mem_of_id_mem (hr : r ∈ rs) (hid : r.id ∈ rs'.map (·.id)) : r ∈ rs' := by
  obtain ⟨q, hq, heq⟩ := List.mem_map.1 hid
  exact List.inj_on_of_nodup_map hnodup (hsub q hq) hr heq ▸ hq

include hsub hnodup in
theorem linked_iff_of_closed (hclosed : ∀ x, Linked rs' id x → x ∈ rs'.map (·.id)) :
    Linked rs' id x ↔ Linked rs id x := by
  constructor
  · refine Relation.ReflTransGen.mono (p := Refers rs) (fun a b hab => ?_) id x
    obtain ⟨q, hq, heq⟩ := hab
    exact ⟨q, hsub q hq, heq⟩
  · intro h
    induction h with
    | refl => exact .refl
    | tail _ hb ih =>
      obtain ⟨q, hq, rfl, hpeer⟩ := hb
      exact ih.tail ⟨q, mem_of_id_mem hsub hnodup hq (hclosed _ ih), rfl, hpeer⟩

include hsub hnodup in
theorem component_eq_of_closed (hnodup' : (rs'.map (·.id)).Nodup)
    (hclosed : ∀ x, Linked rs' id x → x ∈ rs'.map (·.id)) :
    component rs' id = component rs id := by
  refine eq_component hnodup (component_sorted hnodup') fun r => ?_
  rw [mem_component_iff, linked_iff_of_closed hsub hnodup hclosed]
  refine ⟨fun ⟨hr, hlinked⟩ => ⟨hsub r hr, hlinked⟩, fun ⟨hr, hlinked⟩ => ⟨?_, hlinked⟩⟩
  refine mem_of_id_mem hsub hnodup hr (hclosed _ ?_)
  rwa [linked_iff_of_closed hsub hnodup hclosed]

include hsub hnodup in
/-- If whoever is named names back, a part of the list settles a circuit if and only if it has its
whole component. -/
theorem settled_iff_of_symm (hsymm : ∀ a b, Refers rs a b → Refers rs b a) :
    Settled rs' id ↔ ∀ x, Linked rs id x → x ∈ rs'.map (·.id) := by
  have hback {x y : String} : Linked rs x y → Linked rs y x :=
    linked_symm fun a b h => .single (hsymm a b h)
  constructor
  · intro h x hx
    rw [← linked_iff_of_closed hsub hnodup fun x hx => (h x hx).1] at hx
    exact (h x hx).1
  · intro hall x hx
    have hlinked (y z : String) (h : Linked rs' y z) : Linked rs y z :=
      Relation.ReflTransGen.mono (p := Refers rs)
        (fun _ _ ⟨q, hq, heq⟩ => ⟨q, hsub q hq, heq⟩) y z h
    have hx' := hlinked id x hx
    refine ⟨hall x hx', ?_⟩
    rw [linked_iff_of_closed hsub hnodup fun y hy => hall y (hx'.trans (hlinked x y hy))]
    exact hback hx'

end part

/-- If everybody who is named is in the list, a circuit is settled if all that it is linked to is linked
back. -/
theorem settled_iff_of_named (hnamed : ∀ a b, Refers rs a b → b ∈ rs.map (·.id))
    (hid : id ∈ rs.map (·.id)) : Settled rs id ↔ ∀ x, Linked rs id x → Linked rs x id := by
  exact ⟨fun h x hx => (h x hx).2, fun h x hx => ⟨mem_of_linked hnamed hid hx, h x hx⟩⟩

end QuantumRelay.RunRequest
