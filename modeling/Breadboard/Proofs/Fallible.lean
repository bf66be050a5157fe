import Mathlib.Data.List.Basic
import Mathlib.Data.List.Induction

/-!
# Passes that may fail

Every pass over a source is a list function in `Except`: it stops at the first element that fails.
The lemmas here say when a whole pass succeeds, and with which result, in terms of its elements
alone, and which failure it reports otherwise (`FirstWrong`). The proofs about the passes open a
pass only through them. A pass over elements that were put in other words has the outcome of the
pass over the elements themselves, in other words (`translate`).
-/

namespace Breadboard

variable {ε α β : Type}

theorem bind_eq_ok_iff {x : Except ε α} {f : α → Except ε β} {b : β} :
    x >>= f = .ok b ↔ ∃ a, x = .ok a ∧ f a = .ok b := by
  cases x with
  | error e => simp [bind, Except.bind]
  | ok a => simp [bind, Except.bind]

theorem map_eq_ok_iff {x : Except ε α} {f : α → β} {b : β} :
    x.map f = .ok b ↔ ∃ a, x = .ok a ∧ f a = b := by
  cases x with
  | error e => simp [Except.map]
  | ok a => simp [Except.map]

theorem mapError_eq_ok_iff {ε' : Type} {x : Except ε α} {f : ε → ε'} {a : α} :
    x.mapError f = .ok a ↔ x = .ok a := by
  cases x with
  | error e => exact ⟨nofun, nofun⟩
  | ok b =>
    constructor
    · rintro ⟨⟩
      rfl
    · rintro ⟨⟩
      rfl

/-- A pass that maps every element succeeds with the list of its elements' results. -/
theorem mapM_eq_ok_iff {f : α → Except ε β} :
    ∀ {xs : List α} {ys : List β}, xs.mapM f = .ok ys ↔ xs.map f = ys.map Except.ok
  | [], ys => by
    cases ys <;> simp [pure, Except.pure]
  | x :: xs, ys => by
    simp only [List.mapM_cons, bind_eq_ok_iff, mapM_eq_ok_iff, pure, Except.pure, Except.ok.injEq]
    constructor
    · rintro ⟨y, hy, zs, hzs, rfl⟩
      simp [hy, hzs]
    · intro h
      cases ys with
      | nil => simp at h
      | cons y ys =>
        simp only [List.map_cons, List.cons.injEq] at h
        exact ⟨y, h.1, ys, h.2, rfl⟩

theorem exists_map_eq_ok_iff {f : α → Except ε β} :
    ∀ {xs : List α}, (∃ ys : List β, xs.map f = ys.map Except.ok) ↔ ∀ x ∈ xs, ∃ y, f x = .ok y
  | [] => ⟨fun _ => nofun, fun _ => ⟨[], rfl⟩⟩
  | x :: xs => by
    rw [List.forall_mem_cons, ← exists_map_eq_ok_iff]
    constructor
    · rintro ⟨ys, h⟩
      cases ys with
      | nil => simp at h
      | cons y ys =>
        simp only [List.map_cons, List.cons.injEq] at h
        exact ⟨⟨y, h.1⟩, ys, h.2⟩
    · rintro ⟨⟨y, hy⟩, ys, hys⟩
      exact ⟨y :: ys, by simp [hy, hys]⟩

/-- What every step of a pass keeps, the whole pass keeps. -/
theorem map_eq_of_map_eq_ok {γ : Type} {f : α → Except ε β} {before : α → γ} {after : β → γ}
    (hstep : ∀ x y, f x = .ok y → after y = before x) :
    ∀ {xs : List α} {ys : List β}, xs.map f = ys.map Except.ok → ys.map after = xs.map before
  | [], [], _ => rfl
  | [], _ :: _, h => by simp at h
  | _ :: _, [], h => by simp at h
  | x :: xs, y :: ys, h => by
    simp only [List.map_cons, List.cons.injEq] at h ⊢
    exact ⟨hstep x y h.1, map_eq_of_map_eq_ok hstep h.2⟩

/-- A pass over some of the elements has the results of these elements. -/
theorem map_filter_eq_ok {f : α → Except ε β} {keep : α → Bool} {kept : β → Bool}
    (hstep : ∀ x y, f x = .ok y → kept y = keep x) :
    ∀ {xs : List α} {ys : List β}, xs.map f = ys.map Except.ok →
      (xs.filter keep).map f = (ys.filter kept).map Except.ok
  | [], [], _ => rfl
  | [], _ :: _, h => by simp at h
  | _ :: _, [], h => by simp at h
  | x :: xs, y :: ys, h => by
    obtain ⟨hx, hxs⟩ := List.cons.inj h
    have ih := map_filter_eq_ok hstep hxs
    cases hkeep : keep x with
    | false => simp [hkeep, hstep x y hx, ih]
    | true => simp [hkeep, hstep x y hx, hx, ih]

/-- Two passes over the same elements: where the first succeeds, the second succeeds under a
condition on the results of the first, with other results, if that is so for every element. -/
theorem map_eq_ok_iff_of_map_eq_ok {γ : Type} {f : α → Except ε β} {g : α → Except ε γ}
    {P : β → Prop} {r : β → γ} (hstep : ∀ x y, f x = .ok y → ∀ z, g x = .ok z ↔ P y ∧ z = r y) :
    ∀ {xs : List α} {ys : List β} {zs : List γ}, xs.map f = ys.map Except.ok →
      (xs.map g = zs.map Except.ok ↔ (∀ y ∈ ys, P y) ∧ zs = ys.map r)
  | [], [], zs, _ => by simp [eq_comm]
  | [], _ :: _, _, h => by simp at h
  | _ :: _, [], _, h => by simp at h
  | x :: xs, y :: ys, [], h => by simp
  | x :: xs, y :: ys, z :: zs, h => by
    obtain ⟨hx, hxs⟩ := List.cons.inj h
    have ih : xs.map g = zs.map Except.ok ↔ (∀ y ∈ ys, P y) ∧ zs = ys.map r :=
      map_eq_ok_iff_of_map_eq_ok hstep hxs
    simp only [List.map_cons, List.cons.injEq, hstep x y hx, ih, List.forall_mem_cons]
    constructor
    · rintro ⟨⟨hy, rfl⟩, hys, rfl⟩
      exact ⟨⟨hy, hys⟩, rfl, rfl⟩
    · rintro ⟨⟨hy, hys⟩, rfl, rfl⟩
      exact ⟨⟨hy, rfl⟩, hys, rfl⟩

/-- A pass that drops the empty results succeeds when it succeeds on every element, with the results
that are not empty. -/
theorem filterMapM_eq_ok_iff {f : α → Except ε (Option β)} :
    ∀ {xs : List α} {ys : List β}, xs.filterMapM f = .ok ys ↔
      (∀ x ∈ xs, ∃ y?, f x = .ok y?) ∧ ys = xs.filterMap fun x => (f x).toOption.join
  | [], ys => by
    simp [pure, Except.pure, eq_comm]
  | x :: xs, ys => by
    rw [List.filterMapM_cons, bind_eq_ok_iff]
    constructor
    · rintro ⟨y?, hy, h⟩
      cases y? with
      | none =>
        obtain ⟨hxs, rfl⟩ := filterMapM_eq_ok_iff.1 h
        simp only [List.mem_cons, forall_eq_or_imp, List.filterMap_cons, hy]
        exact ⟨⟨⟨none, rfl⟩, hxs⟩, by simp [Except.toOption]⟩
      | some y =>
        obtain ⟨zs, hzs, h⟩ := bind_eq_ok_iff.1 h
        obtain ⟨hxs, rfl⟩ := filterMapM_eq_ok_iff.1 hzs
        cases h
        simp only [List.mem_cons, forall_eq_or_imp, List.filterMap_cons, hy]
        exact ⟨⟨⟨some y, rfl⟩, hxs⟩, by simp [Except.toOption]⟩
    · rintro ⟨hxs, rfl⟩
      obtain ⟨y?, hy⟩ := hxs x List.mem_cons_self
      have hrest := filterMapM_eq_ok_iff.2 ⟨fun z hz => hxs z (List.mem_cons_of_mem _ hz), rfl⟩
      refine ⟨y?, hy, ?_⟩
      cases y? with
      | none => simpa [hy, Except.toOption] using hrest
      | some y =>
        refine bind_eq_ok_iff.2 ⟨_, hrest, ?_⟩
        simp [hy, Except.toOption, pure, Except.pure]

/-! ## Failures -/

theorem bind_eq_error_iff {x : Except ε α} {f : α → Except ε β} {e : ε} :
    x >>= f = .error e ↔ x = .error e ∨ ∃ a, x = .ok a ∧ f a = .error e := by
  cases x with
  | error e' => simp [bind, Except.bind]
  | ok a => simp [bind, Except.bind]

theorem bind_pure_eq_error_iff {x : Except ε α} {f : α → β} {e : ε} :
    (x >>= fun a => pure (f a)) = .error e ↔ x = .error e := by
  cases x with
  | error e' => simp [bind, Except.bind]
  | ok a => simp [bind, Except.bind, pure, Except.pure]

theorem map_eq_error_iff {x : Except ε α} {f : α → β} {e : ε} :
    x.map f = .error e ↔ x = .error e := by
  cases x with
  | error e' => simp [Except.map]
  | ok a => simp [Except.map]

theorem mapError_eq_error_iff {ε' : Type} {x : Except ε α} {f : ε → ε'} {e' : ε'} :
    x.mapError f = .error e' ↔ ∃ e, x = .error e ∧ f e = e' := by
  cases x with
  | error e => simp [Except.mapError]
  | ok a => simp [Except.mapError]

/-! ## The first failure -/

/-- Nothing is wrong with any element of a list, where `wrong before x e` says that `e` is wrong
with `x` behind `before`. -/
def Clear (wrong : List α → α → ε → Prop) (xs : List α) : Prop :=
  ∀ before x after e, xs = before ++ x :: after → ¬ wrong before x e

/-- The first element of a list with which something is wrong, and what that is. -/
def FirstWrong (wrong : List α → α → ε → Prop) (xs : List α) (x : α) (e : ε) : Prop :=
  ∃ before after, xs = before ++ x :: after ∧ Clear wrong before ∧ wrong before x e

section
variable {wrong : List α → α → ε → Prop} {xs ys : List α} {x y : α} {e : ε}

theorem clear_nil : Clear wrong [] := by
  intro before x after e h
  simp at h

/-- A list that ends with `x` is split at the end or before it. -/
theorem split_concat {before after : List α} (h : xs ++ [x] = before ++ y :: after) :
    (before = xs ∧ y = x) ∨ ∃ rest, xs = before ++ y :: rest := by
  rcases List.eq_nil_or_concat' after with rfl | ⟨rest, z, rfl⟩
  · obtain ⟨rfl, hxy⟩ := List.append_inj' h rfl
    exact Or.inl ⟨rfl, by simpa using hxy.symm⟩
  · have hsplit : xs ++ [x] = (before ++ y :: rest) ++ [z] := by simpa using h
    exact Or.inr ⟨rest, (List.append_inj' hsplit rfl).1⟩

theorem clear_concat_iff : Clear wrong (xs ++ [x]) ↔ Clear wrong xs ∧ ∀ e, ¬ wrong xs x e := by
  constructor
  · intro h
    refine ⟨fun before y after e hxs => ?_, fun e => h xs x [] e rfl⟩
    exact h before y (after ++ [x]) e (by simp [hxs])
  · rintro ⟨hxs, hx⟩ before y after e h
    rcases split_concat h with ⟨rfl, rfl⟩ | ⟨rest, rfl⟩
    · exact hx e
    · exact hxs before y rest e rfl

theorem FirstWrong.append (h : FirstWrong wrong xs x e) (ys : List α) :
    FirstWrong wrong (xs ++ ys) x e := by
  obtain ⟨before, after, rfl, hclear, hx⟩ := h
  exact ⟨before, after ++ ys, by simp, hclear, hx⟩

theorem FirstWrong.mem (h : FirstWrong wrong xs x e) : x ∈ xs := by
  obtain ⟨before, after, rfl, -⟩ := h
  simp

theorem not_firstWrong_nil : ¬ FirstWrong wrong [] x e := by
  rintro ⟨before, after, h, -⟩
  simp at h

theorem firstWrong_concat_iff :
    FirstWrong wrong (xs ++ [x]) y e ↔
      FirstWrong wrong xs y e ∨ (Clear wrong xs ∧ y = x ∧ wrong xs x e) := by
  constructor
  · rintro ⟨before, after, h, hclear, hy⟩
    rcases split_concat h with ⟨rfl, rfl⟩ | ⟨rest, rfl⟩
    · exact Or.inr ⟨hclear, rfl, hy⟩
    · exact Or.inl ⟨before, rest, rfl, hclear, hy⟩
  · rintro (h | ⟨hclear, rfl, hy⟩)
    · exact h.append [x]
    · exact ⟨xs, [], rfl, hclear, hy⟩

end

/-- What is wrong may be put in other words, which may name the element. -/
theorem firstWrong_iff_of_iff {ε' : Type} {wrong : List α → α → ε → Prop}
    {wrong' : List α → α → ε' → Prop} {words : α → ε' → ε}
    (h : ∀ before x e, wrong before x e ↔ ∃ e', wrong' before x e' ∧ words x e' = e) {xs : List α}
    {x : α} {e : ε} :
    FirstWrong wrong xs x e ↔ ∃ e', FirstWrong wrong' xs x e' ∧ words x e' = e := by
  have hclear : ∀ before, Clear wrong before ↔ Clear wrong' before := by
    intro before
    constructor
    · intro hclear earlier y after e' hsplit hy
      exact hclear earlier y after _ hsplit ((h _ _ _).2 ⟨e', hy, rfl⟩)
    · intro hclear earlier y after e hsplit hy
      obtain ⟨e', hy', -⟩ := (h _ _ _).1 hy
      exact hclear earlier y after e' hsplit hy'
  constructor
  · rintro ⟨before, after, rfl, hbefore, hx⟩
    obtain ⟨e', hx', rfl⟩ := (h _ _ _).1 hx
    exact ⟨e', ⟨before, after, rfl, (hclear before).1 hbefore, hx'⟩, rfl⟩
  · rintro ⟨e', ⟨before, after, rfl, hbefore, hx'⟩, rfl⟩
    exact ⟨before, after, rfl, (hclear before).2 hbefore, (h _ _ _).2 ⟨e', hx', rfl⟩⟩

/-- An element of a pass fails, whatever comes before it. -/
def Fails (f : α → Except ε β) (_ : List α) (x : α) (e : ε) : Prop :=
  f x = .error e

theorem clear_fails_iff {f : α → Except ε β} {xs : List α} :
    Clear (Fails f) xs ↔ ∀ x ∈ xs, ∃ y, f x = .ok y := by
  constructor
  · intro h x hx
    obtain ⟨before, after, rfl⟩ := List.append_of_mem hx
    cases hf : f x with
    | ok y => exact ⟨y, rfl⟩
    | error e => exact absurd hf (h before x after e rfl)
  · rintro h before x after e rfl hf
    obtain ⟨y, hy⟩ := h x (by simp)
    rw [Fails, hy] at hf
    cases hf

/-- A pass that maps every element fails with the failure of the first element that fails. -/
theorem mapM_eq_error_iff {f : α → Except ε β} {xs : List α} {e : ε} :
    xs.mapM f = .error e ↔ ∃ x, FirstWrong (Fails f) xs x e := by
  induction xs using List.reverseRecOn with
  | nil => simp [not_firstWrong_nil, pure, Except.pure]
  | append_singleton xs x ih =>
    have hclear : (∃ ys, xs.mapM f = .ok ys) ↔ Clear (Fails f) xs := by
      simp only [mapM_eq_ok_iff, exists_map_eq_ok_iff, clear_fails_iff]
    have hone : ∀ ys : List β, ([x].mapM f >>= fun zs => pure (ys ++ zs)) = .error e ↔
        f x = .error e := by
      intro ys
      cases hf : f x <;> simp [hf, bind, Except.bind, pure, Except.pure]
    simp only [List.mapM_append, bind_eq_error_iff (x := xs.mapM f), hone, ih,
      firstWrong_concat_iff, exists_or, exists_and_right, hclear, exists_and_left,
      exists_eq, true_and, Fails]

theorem filterMapM_eq_map_mapM {f : α → Except ε (Option β)} :
    ∀ xs : List α, xs.filterMapM f = (xs.mapM f).map (List.filterMap id)
  | [] => rfl
  | x :: xs => by
    rw [List.filterMapM_cons, List.mapM_cons, filterMapM_eq_map_mapM xs]
    cases f x with
    | error e => rfl
    | ok y? => cases y? <;> cases xs.mapM f <;> rfl

/-- Elements with an empty result can be left out before the pass. -/
theorem filterMapM_filter {f : α → Except ε (Option β)} {keep : α → Bool} :
    ∀ {xs : List α}, (∀ x ∈ xs, keep x = false → f x = .ok none) →
      (xs.filter keep).filterMapM f = xs.filterMapM f
  | [], _ => rfl
  | x :: xs, h => by
    obtain ⟨hx, hxs⟩ := List.forall_mem_cons.1 h
    cases hkeep : keep x with
    | false =>
      rw [List.filter_cons_of_neg (by simp [hkeep]), List.filterMapM_cons, hx hkeep,
        filterMapM_filter hxs]
      rfl
    | true =>
      rw [List.filter_cons_of_pos hkeep, List.filterMapM_cons, List.filterMapM_cons,
        filterMapM_filter hxs]

/-- A pass that drops the empty results fails in the same way. -/
theorem filterMapM_eq_error_iff {f : α → Except ε (Option β)} {xs : List α} {e : ε} :
    xs.filterMapM f = .error e ↔ ∃ x, FirstWrong (Fails f) xs x e := by
  rw [filterMapM_eq_map_mapM, map_eq_error_iff, mapM_eq_error_iff]

/-! ## The same pass in other words -/

section
variable {ε' α' β' : Type} {e : ε → ε'} {g : α → α'} {h : β → β'}

/-- An outcome in other words, for its failure and for its result. -/
def translate (e : ε → ε') (g : α → α') : Except ε α → Except ε' α'
  | .ok a => .ok (g a)
  | .error x => .error (e x)

theorem translate_eq_ok_iff {x : Except ε α} {b : α'} :
    translate e g x = .ok b ↔ ∃ a, x = .ok a ∧ g a = b := by
  cases x <;> simp [translate]

/-- Two steps are translated one after the other. -/
theorem translate_bind {x : Except ε α} {k : α → Except ε β} {k' : α' → Except ε' β'}
    (hk : ∀ a, x = .ok a → k' (g a) = translate e h (k a)) :
    (translate e g x >>= k') = translate e h (x >>= k) := by
  cases x with
  | error _ => rfl
  | ok a => exact hk a rfl

theorem mapM_map_translate {k : α → Except ε β} {k' : α' → Except ε' β'} :
    ∀ {xs : List α}, (∀ x ∈ xs, k' (g x) = translate e h (k x)) →
      (xs.map g).mapM k' = translate e (List.map h) (xs.mapM k)
  | [], _ => rfl
  | x :: xs, hk => by
    obtain ⟨hx, hxs⟩ := List.forall_mem_cons.1 hk
    rw [List.map_cons, List.mapM_cons, List.mapM_cons, hx, mapM_map_translate hxs]
    exact translate_bind fun y _ => translate_bind fun ys _ => rfl

theorem filterMapM_map_translate {k : α → Except ε (Option β)} {k' : α' → Except ε' (Option β')}
    {xs : List α} (hk : ∀ x ∈ xs, k' (g x) = translate e (Option.map h) (k x)) :
    (xs.map g).filterMapM k' = translate e (List.map h) (xs.filterMapM k) := by
  rw [filterMapM_eq_map_mapM, filterMapM_eq_map_mapM, mapM_map_translate hk]
  cases xs.mapM k with
  | error _ => rfl
  | ok ys =>
    simp only [translate, Except.map, List.filterMap_map, List.map_filterMap]
    rfl

end

end Breadboard
