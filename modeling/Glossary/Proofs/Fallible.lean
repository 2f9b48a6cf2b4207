import Mathlib.Data.List.Basic
import Mathlib.Data.List.Forall2

/-!
Computations that may fail, opened one step at a time.
-/

namespace Glossary.Fallible

variable {ε α β σ : Type}

theorem bind_eq_ok_iff {x : Except ε α} {f : α → Except ε β} {b : β} :
    x >>= f = .ok b ↔ ∃ a, x = .ok a ∧ f a = .ok b := by
  cases x with
  | ok a => simp [bind, Except.bind]
  | error e => simp [bind, Except.bind]

theorem bind_eq_error_iff {x : Except ε α} {f : α → Except ε β} {e : ε} :
    x >>= f = .error e ↔ x = .error e ∨ ∃ a, x = .ok a ∧ f a = .error e := by
  cases x with
  | ok a => simp [bind, Except.bind]
  | error e => simp [bind, Except.bind]

theorem exists_of_map_eq_ok {x : Except ε α} {f : α → β} {b : β} (h : x.map f = .ok b) :
    ∃ a, x = .ok a ∧ f a = b := by
  cases x with
  | ok a => exact ⟨a, rfl, Except.ok.inj h⟩
  | error e => cases h

theorem map_eq_error_iff {x : Except ε α} {f : α → β} {e : ε} :
    x.map f = .error e ↔ x = .error e := by
  cases x with
  | ok a => simp [Except.map]
  | error e' => simp [Except.map]

theorem mapError_eq_ok_iff {ε' : Type} {x : Except ε α} {f : ε → ε'} {a : α} :
    x.mapError f = .ok a ↔ x = .ok a := by
  cases x with
  | ok a' => simp [Except.mapError]
  | error e => simp [Except.mapError]

theorem mapError_eq_error_iff {ε' : Type} {x : Except ε α} {f : ε → ε'} {e' : ε'} :
    x.mapError f = .error e' ↔ ∃ e, x = .error e ∧ f e = e' := by
  cases x with
  | ok a => simp [Except.mapError]
  | error e => simp [Except.mapError]

theorem eq_ok_of_toOption_eq_some {x : Except ε α} {a : α} (h : x.toOption = some a) :
    x = .ok a := by
  cases x with
  | ok a' => exact congrArg Except.ok (Option.some.inj h)
  | error e => cases h

theorem error_or_ok_of_toOption_eq {γ : Type} {x y : Except ε α} {f : α → γ}
    (h : x.toOption.map f = y.toOption.map f) :
    (∃ e e', x = .error e ∧ y = .error e') ∨ ∃ a b, x = .ok a ∧ y = .ok b ∧ f a = f b := by
  cases x with
  | error e =>
      cases y with
      | error e' => exact Or.inl ⟨e, e', rfl, rfl⟩
      | ok b => cases h
  | ok a =>
      cases y with
      | error e' => cases h
      | ok b => exact Or.inr ⟨a, b, rfl, rfl, Option.some.inj h⟩

theorem foldlM_cons_eq_ok_iff {f : σ → α → Except ε σ} {s t : σ} {a : α} {as : List α} :
    (a :: as).foldlM f s = .ok t ↔ ∃ u, f s a = .ok u ∧ as.foldlM f u = .ok t := by
  rw [List.foldlM_cons, bind_eq_ok_iff]

theorem foldlM_append_eq_ok_iff {f : σ → α → Except ε σ} {s t : σ} {as bs : List α} :
    (as ++ bs).foldlM f s = .ok t ↔ ∃ u, as.foldlM f s = .ok u ∧ bs.foldlM f u = .ok t := by
  rw [List.foldlM_append, bind_eq_ok_iff]

theorem foldlM_eq_error_iff {f : σ → α → Except ε σ} {s : σ} {as : List α} {e : ε} :
    as.foldlM f s = .error e ↔ ∃ before a after t, as = before ++ a :: after ∧
      before.foldlM f s = .ok t ∧ f t a = .error e := by
  constructor
  · intro h
    induction as generalizing s with
    | nil => cases h
    | cons a as ih =>
        rw [List.foldlM_cons, bind_eq_error_iff] at h
        rcases h with h | ⟨u, hu, h⟩
        · exact ⟨[], a, as, s, rfl, rfl, h⟩
        · obtain ⟨before, b, after, t, rfl, hbefore, hb⟩ := ih h
          exact ⟨a :: before, b, after, t, rfl, foldlM_cons_eq_ok_iff.mpr ⟨u, hu, hbefore⟩, hb⟩
  · rintro ⟨before, a, after, t, rfl, hbefore, ha⟩
    have hrest : (a :: after).foldlM f t = .error e := by
      rw [List.foldlM_cons]
      exact bind_eq_error_iff.mpr (Or.inl ha)
    rw [List.foldlM_append]
    exact bind_eq_error_iff.mpr (Or.inr ⟨t, hbefore, hrest⟩)

theorem exists_of_foldlM_eq_error {f : σ → α → Except ε σ} {s : σ} {as : List α} {e : ε}
    (h : as.foldlM f s = .error e) : ∃ a ∈ as, ∃ u, f u a = .error e := by
  obtain ⟨before, a, after, u, rfl, -, ha⟩ := foldlM_eq_error_iff.mp h
  exact ⟨a, by simp, u, ha⟩

theorem foldlM_eq_ok_of_forall {f : σ → α → Except ε σ} (hf : ∀ s a, ∃ t, f s a = .ok t)
    (s : σ) (as : List α) : ∃ t, as.foldlM f s = .ok t := by
  induction as generalizing s with
  | nil => exact ⟨s, rfl⟩
  | cons a as ih =>
      obtain ⟨u, hu⟩ := hf s a
      obtain ⟨t, ht⟩ := ih u
      exact ⟨t, foldlM_cons_eq_ok_iff.mpr ⟨u, hu, ht⟩⟩

theorem forM_eq_ok_iff {f : α → Except ε Unit} {as : List α} :
    as.forM f = .ok () ↔ ∀ a ∈ as, f a = .ok () := by
  induction as with
  | nil => simp [pure, Except.pure]
  | cons a as ih =>
      rw [show (a :: as).forM f = f a >>= fun _ => as.forM f from rfl, bind_eq_ok_iff,
        List.forall_mem_cons, ← ih]
      constructor
      · rintro ⟨⟨⟩, ha, has⟩
        exact ⟨ha, has⟩
      · rintro ⟨ha, has⟩
        exact ⟨(), ha, has⟩

theorem exists_of_forM_eq_error {f : α → Except ε Unit} {as : List α} {e : ε}
    (h : as.forM f = .error e) : ∃ a ∈ as, f a = .error e := by
  induction as with
  | nil => cases h
  | cons a as ih =>
      rcases bind_eq_error_iff.mp h with h | ⟨-, -, h⟩
      · exact ⟨a, List.mem_cons_self, h⟩
      · obtain ⟨b, hb, h⟩ := ih h
        exact ⟨b, List.mem_cons_of_mem a hb, h⟩

theorem foldlM_congr {m : Type → Type} [Monad m] {f f' : σ → α → m σ} {as : List α}
    (hf : ∀ a ∈ as, ∀ s, f s a = f' s a) {s : σ} : as.foldlM f s = as.foldlM f' s := by
  induction as generalizing s with
  | nil => rfl
  | cons a as ih =>
      rw [List.foldlM_cons, List.foldlM_cons, hf a List.mem_cons_self]
      congr 1
      funext t
      exact ih fun a' ha' => hf a' (List.mem_cons_of_mem a ha')

theorem mapM_eq_ok_iff_forall₂ {f : α → Except ε β} {as : List α} {bs : List β} :
    as.mapM f = .ok bs ↔ List.Forall₂ (fun a b => f a = .ok b) as bs := by
  induction as generalizing bs with
  | nil => cases bs <;> simp [pure, Except.pure]
  | cons a as ih =>
      rw [List.mapM_cons, bind_eq_ok_iff, List.forall₂_cons_left_iff]
      constructor
      · rintro ⟨b, hb, h⟩
        obtain ⟨rest, hrest, h⟩ := bind_eq_ok_iff.mp h
        exact ⟨b, rest, hb, ih.mp hrest, (Except.ok.inj h).symm⟩
      · rintro ⟨b, rest, hb, hrest, rfl⟩
        exact ⟨b, hb, bind_eq_ok_iff.mpr ⟨rest, ih.mpr hrest, rfl⟩⟩

theorem exists_mapM_eq_ok {f : α → Except ε β} {as : List α} (h : ∀ a ∈ as, ∃ b, f a = .ok b) :
    ∃ bs, as.mapM f = .ok bs := by
  simp only [mapM_eq_ok_iff_forall₂]
  induction as with
  | nil => exact ⟨[], List.Forall₂.nil⟩
  | cons a as ih =>
      obtain ⟨b, hb⟩ := h a List.mem_cons_self
      obtain ⟨bs, hbs⟩ := ih fun a' ha' => h a' (List.mem_cons_of_mem a ha')
      exact ⟨b :: bs, List.Forall₂.cons hb hbs⟩

theorem exists_of_mem_mapM {f : α → Except ε β} {as : List α} {bs : List β}
    (h : as.mapM f = .ok bs) {b : β} (hb : b ∈ bs) : ∃ a ∈ as, f a = .ok b := by
  have hrelated := mapM_eq_ok_iff_forall₂.mp h
  clear h
  induction hrelated with
  | nil => cases hb
  | @cons a _ as _ ha _ ih =>
      rcases List.mem_cons.mp hb with rfl | hb
      · exact ⟨a, List.mem_cons_self, ha⟩
      · obtain ⟨a', ha', hb'⟩ := ih hb
        exact ⟨a', List.mem_cons_of_mem a ha', hb'⟩

theorem exists_of_mapM_eq_append {f : α → Except ε β} {as : List α} {before after : List β} {b : β}
    (h : as.mapM f = .ok (before ++ b :: after)) :
    ∃ front a back, as = front ++ a :: back ∧ front.mapM f = .ok before ∧ f a = .ok b := by
  have hrelated := mapM_eq_ok_iff_forall₂.mp h
  have hfront := List.forall₂_take_append as before (b :: after) hrelated
  have hback := List.forall₂_drop_append as before (b :: after) hrelated
  obtain ⟨a, back, ha, -, hdrop⟩ := List.forall₂_cons_right_iff.mp hback
  exact ⟨as.take before.length, a, back, by rw [← hdrop, List.take_append_drop],
    mapM_eq_ok_iff_forall₂.mpr hfront, ha⟩

theorem map_eq_of_mapM_eq_ok {γ : Type} {f : α → Except ε β} {as : List α} {bs : List β}
    (h : as.mapM f = .ok bs) {p : α → γ} {q : β → γ}
    (hf : ∀ {a b}, f a = .ok b → q b = p a) : bs.map q = as.map p := by
  have hrelated := mapM_eq_ok_iff_forall₂.mp h
  clear h
  induction hrelated with
  | nil => rfl
  | cons ha _ ih => rw [List.map_cons, List.map_cons, hf ha, ih]

section Alike

variable {γ δ : Type} {x : Except ε α} {y : Except ε β} {f : α → Except ε γ}
  {k : β → Except ε δ} {e : ε}

/-- Both computations succeed, or both fail with the same error. -/
def Alike (x : Except ε α) (y : Except ε β) : Prop :=
  x.map (fun _ => ()) = y.map fun _ => ()

theorem Alike.ok_iff (h : Alike x y) : (∃ a, x = .ok a) ↔ ∃ b, y = .ok b := by
  cases x <;> cases y <;> simp_all [Alike, Except.map]

theorem Alike.error_iff (h : Alike x y) : x = .error e ↔ y = .error e := by
  rw [← map_eq_error_iff, h, map_eq_error_iff]

theorem Alike.bind (h : Alike x y) (hnext : ∀ a b, x = .ok a → Alike (f a) (k b)) :
    Alike (x >>= f) (y >>= k) := by
  cases x with
  | ok a =>
      obtain ⟨b, rfl⟩ := h.ok_iff.mp ⟨a, rfl⟩
      exact hnext a b rfl
  | error e =>
      obtain rfl := h.error_iff.mp rfl
      rfl

/-- A last step that cannot fail makes no difference. -/
theorem Alike.bind_ok (h : Alike x y) (hlast : ∀ a, ∃ c, f a = .ok c) : Alike (x >>= f) y := by
  cases x with
  | ok a =>
      obtain ⟨b, rfl⟩ := h.ok_iff.mp ⟨a, rfl⟩
      obtain ⟨c, hc⟩ := hlast a
      exact congrArg (Except.map fun _ => ()) hc
  | error e =>
      obtain rfl := h.error_iff.mp rfl
      rfl

theorem alike_mapM_forM {step : α → Except ε β} {test : α → Except ε Unit}
    (h : ∀ a, Alike (step a) (test a)) (as : List α) : Alike (as.mapM step) (as.forM test) := by
  induction as with
  | nil => rfl
  | cons a as ih =>
      rw [List.mapM_cons]
      exact (h a).bind fun b _ _ => ih.bind_ok fun bs => ⟨b :: bs, rfl⟩

end Alike

end Glossary.Fallible
