import LsmTree.Proofs.Items.Errors

/-!
# Proofs/Items/Damage — what is yielded before the first error

An answer is honest (`Honest`) if it is the right one or says that a file is damaged.  A source whose
file is damaged yields its entries up to some item that cannot be read (`Item.Tells`), and so does a
merge of such sources: up to its first error it yields what the whole ones yield
(`drain_live_merge_tells`).
-/

namespace LsmTree

/-! ## Answers -/

/-- An answer that can be relied on: the expected one, or that a file is damaged. -/
def Honest {α : Type} (found told : Except Error α) : Prop :=
  found = told ∨ ∃ cause, found = .error (.corrupt cause)

namespace Honest

variable {α β : Type} {found told : Except Error α}

theorem refl (found : Except Error α) : Honest found found := .inl rfl

theorem map (f : α → β) (h : Honest found told) : Honest (f <$> found) (f <$> told) := by
  rcases h with rfl | ⟨cause, rfl⟩
  · exact .refl _
  · exact .inr ⟨cause, rfl⟩

/-- **Honest steps make up an honest answer.** -/
theorem bind {f g : α → Except Error β} (h : Honest found told)
    (hnext : ∀ a, told = .ok a → Honest (f a) (g a)) : Honest (found >>= f) (told >>= g) := by
  rcases h with rfl | ⟨cause, rfl⟩
  · cases found with
    | error e => exact .refl _
    | ok a => exact hnext a rfl
  · exact .inr ⟨cause, rfl⟩

end Honest

/-! ## Items -/

namespace Item

/-- The items are the entries, up to the first item that cannot be read. -/
inductive Tells : List Item → List Entry → Prop where
  | done : Tells [] []
  | entry (e : Entry) {found : List Item} {es : List Entry} (h : Tells found es) :
      Tells (.ok e :: found) (e :: es)
  | lost (cause : Corruption) (found : List Item) (es : List Entry) :
      Tells (.error (.corrupt cause) :: found) es

variable {found : List Item} {es : List Entry}

theorem tells_ok : ∀ es : List Entry, Tells (es.map .ok) es
  | [] => .done
  | e :: es => .entry e (tells_ok es)

/-- **What stands before the first error is a part of the entries**, and all of them if there is no
error. -/
theorem Tells.eq_or_cut (h : Tells found es) :
    found = es.map .ok ∨ ∃ front back cause rest, es = front ++ rest ∧
      found = front.map .ok ++ .error (.corrupt cause) :: back := by
  induction h with
  | done => exact .inl rfl
  | entry e _ ih =>
    rcases ih with rfl | ⟨front, back, cause, rest, rfl, rfl⟩
    · exact .inl rfl
    · exact .inr ⟨e :: front, back, cause, rest, rfl, rfl⟩
  | lost cause found es => exact .inr ⟨[], found, cause, es, rfl, rfl⟩

theorem Tells.filter (h : Tells found es) :
    Tells (found.filter Live.visible) (es.filter fun entry => !entry.isTombstone) := by
  induction h with
  | done => exact .done
  | entry e _ ih =>
    cases hlive : e.isTombstone with
    | true => simpa [Live.visible, hlive] using ih
    | false => simpa [Live.visible, hlive] using ih.entry e
  | lost cause found es => exact .lost cause _ _

theorem Tells.take (h : Tells found es) (n : Nat) : Tells (found.take n) (es.take n) := by
  induction h generalizing n with
  | done => simpa using Tells.done
  | entry e _ ih =>
    cases n with
    | zero => exact .done
    | succ n => exact .entry e (ih n)
  | lost cause found es =>
    cases n with
    | zero => exact .done
    | succ n => exact .lost cause _ _

/-- **Collecting the items gives all entries or an error.** -/
theorem Tells.collect (h : Tells found es) : Honest (Item.collect found) (.ok es) := by
  induction h with
  | done => exact .refl _
  | entry e _ ih => exact ih.map (e :: ·)
  | lost cause found es => exact .inr ⟨cause, rfl⟩

theorem Tells.begins (h : Tells found es) : Begins found es := by
  induction h with
  | done => exact .nil
  | entry e _ ih => exact ih.cons
  | lost cause found es => exact .error _ found es

theorem Tells.corrupt (h : Tells found es) {e : Error} (he : error? found = some e) :
    ∃ cause, e = .corrupt cause := by
  induction h with
  | done => cases he
  | entry _ _ ih => exact ih he
  | lost cause _ _ => exact ⟨cause, (Option.some.inj he).symm⟩

theorem Begins.tells (h : Begins found es)
    (hcorrupt : ∀ e, error? found = some e → ∃ cause, e = .corrupt cause) : Tells found es := by
  induction found generalizing es with
  | nil => exact h.eq_of_ok rfl ▸ .done
  | cons item rest ih =>
    cases item with
    | error e =>
      obtain ⟨cause, rfl⟩ := hcorrupt e rfl
      exact .lost cause rest es
    | ok entry =>
      obtain ⟨others, rfl⟩ := h.isPrefix
      refine .entry entry (ih ⟨List.prefix_append _ _, fun hok => ?_⟩ hcorrupt)
      exact (List.cons.inj (h.eq_of_ok hok)).2

end Item

/-- **Live entries of damaged layers are those of the whole ones**, up to the first error. -/
theorem drain_live_merge_tells {sources : List (List Item)} {layers : List (List Entry)}
    (hlayers : ∀ es ∈ layers, Entry.Ascending es)
    (hsources : List.Forall₂ Item.Tells sources layers) {live : List Entry}
    (hlive : ItemStream.drain (Live.mk (Merge.ofSources (layers.map (·.map .ok)))) =
      live.map .ok) :
    Item.Tells (ItemStream.drain (Live.mk (Merge.ofSources sources))) live := by
  obtain ⟨es, hes, hdrain⟩ := Merge.items_ok hlayers
  have hbegins := Merge.begins_items (hsources.imp fun _ _ h => h.begins) hlayers hes
  have htells : Item.Tells (Merge.items sources) es := hbegins.tells fun e he => by
    obtain ⟨source, hsource, herror⟩ := Merge.error?_of_mem_items (Item.mem_of_error? he)
    obtain ⟨i, hi, rfl⟩ := List.getElem_of_mem hsource
    exact (hsources.get hi (hsources.length_eq ▸ hi)).corrupt herror
  rw [Live.drain_eq, ← Merge.items, hdrain, List.filter_map] at hlive
  rw [Live.drain_eq]
  have hfiltered : es.filter (fun entry => !entry.isTombstone) = live :=
    (List.map_inj_right fun _ _ => Except.ok.inj).mp hlive
  exact hfiltered ▸ htells.filter

end LsmTree
