import HeaderSymbols.Conversion
import HeaderSymbols.Proofs.Layout.Descent
import HeaderSymbols.Proofs.Source.Arena

/-!
# What a layout leaves alone

* `extends_layout`, `extends_ofModel`: no layout takes back a line or a finding, and each counts the
  symbols that it emits.
* `namespaces_group`: in a well formed model, the layout of a group that is not the document
  leaves the namespaces as they were.
-/
namespace HeaderSymbols

namespace Descent

variable {m : Model}

/-! ## Lines and findings -/

theorem extends_layout (hm : m.WellNested) (path : List GroupId) (id : GroupId) :
    Yields hm (fun _ _ e _ _ e' => e.Extends e') (fun _ _ _ _ _ e _ e' => e.Extends e')
      (fun _ _ _ e _ e' => e.Extends e') path id := by
  refine induct hm (fun {path _ start e i c e'} _ hv => ?finish) (fun _ _ hg => hg)
    (fun _ _ _ hg => ((Emitter.extends_enter _ _).trans hg).trans (Emitter.extends_leave _))
    (Emitter.Extends.refl _) (fun _ _ hi _ hr => hi.trans hr) (fun h => h) path id
  have hx := Emitter.extends_visit m path start e i
  rwa [hv] at hx

theorem extends_group (hm : m.WellNested) (path : List GroupId) (id : GroupId) (start : Cursor)
    (e : Emitter) : e.Extends (group hm path id start e).2 :=
  (extends_layout hm path id).group rfl

/-! ## Namespaces -/

/-- What is finished at once has turned the namespaces as its item does. -/
theorem namespaces_visit {path : List GroupId} {start c : Cursor} {e e' : Emitter} {i : Item}
    (h : e.visit m path start i = (e', .finish c)) : e'.namespaces = i.turn e.namespaces := by
  cases i with
  | text | enter | leave | region | assignment => cases h; rfl
  | group => simp [Emitter.visit] at h
  | skip amount line =>
    simp only [Emitter.visit, Emitter.skip, Emitter.advance] at h
    split at h
    · split at h <;> (cases h; rfl)
    · cases h; rfl
  | member mem =>
    simp only [Emitter.visit, Emitter.member] at h
    split at h
    · simp only [Emitter.field, Emitter.advance] at h
      split at h
      · cases h; rfl
      · split at h
        · split at h <;> (cases h; rfl)
        · cases h; rfl
    · split at h
      · simp at h
      · cases h; rfl

theorem namespaces_layout (hm : m.WellFormed) (path : List GroupId) (id : GroupId) :
    Yields hm.wellNested (fun _ _ e i _ e' => i.isPlaced = true → e'.namespaces = e.namespaces)
      (fun _ id _ _ _ e _ e' => id ≠ Model.document → e'.namespaces = e.namespaces)
      (fun _ id _ e _ e' => id ≠ Model.document → e'.namespaces = e.namespaces) path id := by
  refine induct hm.wellNested (fun _ hv hi => ?finish) (fun hc _ hg _ => ?nest)
    (fun _ hr _ hg _ => ?expand) (fun _ => rfl) (fun hsub _ hfirst _ hrest hid => ?cons)
    (fun h => h) path id
  case finish => exact (namespaces_visit hv).trans (Namespaces.turn_of_isPlaced _ hi)
  case nest => exact hg (Nat.ne_of_gt (Nat.zero_lt_of_lt (hm.nests _ _ hc).1))
  case expand =>
    have hid := (hm.registered _ _ (Emitter.resolve_eq_ok hr).2.1).1
    simp only [Emitter.leave, hg (Nat.ne_of_gt hid), Emitter.enter, Namespaces.leave_enter]
  case cons => exact (hrest hid).trans (hfirst (hm.placed _ hid _ (hsub _ List.mem_cons_self)))

theorem namespaces_group (hm : m.WellFormed) {id : GroupId} (hid : id ≠ Model.document)
    (path : List GroupId) (start : Cursor) (e : Emitter) :
    (group hm.wellNested path id start e).2.namespaces = e.namespaces :=
  (namespaces_layout hm path id).group rfl hid

end Descent

/-! ## Whole layouts -/

namespace Emitter

theorem extends_clear (e : Emitter) : e.Extends e.clear :=
  ⟨List.prefix_refl _, List.prefix_refl _, rfl⟩

variable {m : Model} (hm : m.WellNested)

include hm

theorem extends_group (e : Emitter) (id : GroupId) (start : Cursor) :
    e.Extends (e.group m id start).2 := by
  rw [Descent.group_eq hm]
  exact Descent.extends_group hm [id] id start e

theorem extends_document (e : Emitter) : e.Extends (e.document m).2 :=
  e.extends_clear.trans (extends_group hm ..)

theorem extends_named (e : Emitter) (namespaceName key : String) (start : UInt64) :
    e.Extends (e.named m namespaceName key start).2 := by
  unfold named
  cases m.lookup key with
  | none => exact e.extends_clear.trans (extends_report ..)
  | some id =>
    have hgroup := extends_group hm (e.clear.enter namespaceName) id (some start)
    exact ((e.extends_clear.trans (extends_enter ..)).trans hgroup).trans (extends_clear _)

theorem extends_trailers (e : Emitter) : e.Extends (e.trailers m) :=
  (extends_named hm ..).trans (extends_named hm ..)

theorem extends_ofModel : new.Extends (ofModel m) :=
  (extends_document hm new).trans (extends_trailers hm _)

/-- The symbols among the lines laid out for a model are as many as were counted. -/
theorem symbols_ofModel : (ofModel m).symbols = countSymbols (ofModel m).lines :=
  (extends_ofModel hm).symbols_eq rfl

end Emitter
end HeaderSymbols
