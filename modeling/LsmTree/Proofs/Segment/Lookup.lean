import LsmTree.Proofs.Segment.Content

/-!
# Proofs/Segment/Lookup — halving finds what is there

A search of a segment that can be read comes to the key's slot, or to the slot where the key would
have to stand (`Position.Fits`): a key that is absent is put behind all smaller ones
(`Segment.Holds.search_miss`).  From this, a look-up finds the entry of the key
(`Segment.Holds.lookup`), and the slots of an interval are those whose keys lie in it
(`Segment.Holds.range`).
-/

namespace LsmTree

/-- The position splits a table at a key: smaller keys stand in front of it, greater ones from it
on, and the key itself, if it is there, at it. -/
def Position.Fits (key : Bytes) (es : List Entry) : Position → Prop
  | .hit pos => ∃ h : pos < es.length, es[pos].key = key
  | .miss pos => pos ≤ es.length ∧ (∀ (i : Nat) (h : i < es.length), i < pos → es[i].key < key) ∧
      ∀ (i : Nat) (h : i < es.length), pos ≤ i → key < es[i].key

namespace Segment

variable {segment : Segment} {es : List Entry}

theorem Holds.key_lt (h : segment.Holds es) {i j : Nat} (hij : i < j) (hj : j < es.length) :
    es[i].key < es[j].key := List.pairwise_iff_getElem.mp h.ascending i j _ hj hij

/-- **The loop of a search**: every key in front of `low` is smaller than the one looked for, and
every key from `high` on is greater. -/
theorem Holds.searchBetween (h : segment.Holds es) (key : Bytes) (low high : Nat)
    (hle : low ≤ high) (hhigh : high ≤ es.length)
    (hbelow : ∀ (i : Nat) (hi : i < es.length), i < low → es[i].key < key)
    (habove : ∀ (i : Nat) (hi : i < es.length), high ≤ i → key < es[i].key) :
    ∃ position, segment.searchBetween key low high = .ok position ∧ position.Fits key es := by
  unfold Segment.searchBetween
  by_cases hlt : low < high
  · rw [if_pos hlt]
    have hmid : low + (high - low) / 2 < es.length := by omega
    simp only [h.readKey _ hmid]
    rcases hcmp : compare es[low + (high - low) / 2].key key with _ | _ | _
    · have hless := (Bytes.compare_eq_lt_iff _ _).mp hcmp
      refine h.searchBetween key _ _ (by omega) hhigh (fun i hi hlow => ?_) habove
      rcases Nat.lt_or_eq_of_le (Nat.le_of_lt_succ hlow) with hi' | rfl
      · exact List.lt_trans (h.key_lt hi' hmid) hless
      · exact hless
    · exact ⟨_, rfl, hmid, (Bytes.compare_eq_eq_iff _ _).mp hcmp⟩
    · have hgreater := (Bytes.compare_eq_gt_iff _ _).mp hcmp
      refine h.searchBetween key _ _ (by omega) (by omega) hbelow (fun i hi hge => ?_)
      rcases Nat.lt_or_eq_of_le hge with hi' | rfl
      · exact List.lt_trans hgreater (h.key_lt hi' hi)
      · exact hgreater
  · rw [if_neg hlt]
    obtain rfl : low = high := Nat.le_antisymm hle (Nat.not_lt.mp hlt)
    exact ⟨_, rfl, hhigh, hbelow, habove⟩
termination_by high - low

/-- **A search finds the key or its place.** -/
theorem Holds.search (h : segment.Holds es) (key : Bytes) :
    ∃ position, segment.search key = .ok position ∧ position.Fits key es := by
  rw [Segment.search, h.size_eq]
  exact h.searchBetween key 0 es.length (Nat.zero_le _) (Nat.le_refl _)
    (fun _ _ hi => absurd hi (Nat.not_lt_zero _)) fun _ hi hge => absurd hi (Nat.not_lt.mpr hge)

/-- **A look-up finds the entry of the key**, and nothing if there is none. -/
theorem Holds.lookup (h : segment.Holds es) (key : Bytes) :
    segment.lookup key = .ok (Entry.first? key es) := by
  obtain ⟨position, hsearch, hfits⟩ := h.search key
  rw [Segment.lookup, hsearch]
  cases position with
  | hit pos =>
    obtain ⟨hpos, hkey⟩ := hfits
    have hfirst : Entry.first? key es = some es[pos] :=
      h.ascending.first?_eq_some_iff.mpr ⟨List.getElem_mem hpos, hkey⟩
    simp [h.read pos hpos, hfirst, bind, Except.bind, Functor.map, Except.map]
  | miss pos =>
    obtain ⟨-, hbelow, habove⟩ := hfits
    have hnone : Entry.first? key es = none := by
      refine Entry.first?_eq_none_iff.mpr fun e he hkey => ?_
      obtain ⟨i, hi, rfl⟩ := List.getElem_of_mem he
      rcases Nat.lt_or_ge i pos with hlt | hge
      · exact Std.ne_of_lt (hbelow i hi hlt) hkey
      · exact Std.ne_of_lt (habove i hi hge) hkey.symm
    simp [hnone, bind, Except.bind, pure, Except.pure]

/-! ## Intervals -/

/-- The first slot of a key splits the table into smaller keys and others. -/
theorem Holds.slot_spec (h : segment.Holds es) {key : Bytes} {position : Position}
    (hfits : position.Fits key es) :
    position.slot ≤ es.length ∧
      ∀ (i : Nat) (hi : i < es.length), es[i].key < key ↔ i < position.slot := by
  cases position with
  | hit pos =>
    obtain ⟨hpos, rfl⟩ := hfits
    refine ⟨Nat.le_of_lt hpos, fun i hi => ⟨fun hlt => ?_, fun hlt => h.key_lt hlt hpos⟩⟩
    refine Nat.lt_of_not_le fun (hge : pos ≤ i) => ?_
    rcases Nat.lt_or_eq_of_le hge with hi' | rfl
    · exact List.lt_irrefl _ (List.lt_trans hlt (h.key_lt hi' hi))
    · exact List.lt_irrefl _ hlt
  | miss pos =>
    obtain ⟨hpos, hbelow, habove⟩ := hfits
    refine ⟨hpos, fun i hi => ⟨fun hlt => ?_, hbelow i hi⟩⟩
    exact Nat.lt_of_not_le fun hge => List.lt_irrefl _ (List.lt_trans hlt (habove i hi hge))

/-- An end of an interval lies between the keys that it cuts off and the others. -/
theorem Holds.boundary (h : segment.Holds es) {outermost : Nat} (hle : outermost ≤ es.length)
    (bound : Option Bytes) :
    ∃ slot, segment.boundary outermost bound = .ok slot ∧ slot ≤ es.length ∧
      ∀ key ∈ bound, ∀ (i : Nat) (hi : i < es.length), es[i].key < key ↔ i < slot := by
  cases bound with
  | none => exact ⟨outermost, rfl, hle, by simp⟩
  | some key =>
    obtain ⟨position, hsearch, hfits⟩ := h.search key
    obtain ⟨hslot, hsplit⟩ := h.slot_spec hfits
    refine ⟨position.slot, by simp [Segment.boundary, hsearch, Functor.map, Except.map], hslot, ?_⟩
    rintro _ ⟨⟩
    exact hsplit

theorem Holds.slots (h : segment.Holds es) (interval : Interval) :
    ∃ start stop, segment.slots interval.lower interval.upper = .ok (start, max stop start) ∧
      max stop start ≤ es.length ∧
        ∀ (i : Nat) (hi : i < es.length),
          interval.contains es[i].key = true ↔ start ≤ i ∧ i < stop := by
  obtain ⟨start, hstart, hstartle, hlower⟩ := h.boundary (Nat.zero_le _) interval.lower
  obtain ⟨stop, hstop, hstople, hupper⟩ := h.boundary (Nat.le_of_eq h.size_eq) interval.upper
  refine ⟨start, stop, ?_, Nat.max_le.mpr ⟨hstople, hstartle⟩, fun i hi => ?_⟩
  · simp [Segment.slots, hstart, hstop, bind, Except.bind, pure, Except.pure]
  · rw [Interval.contains_iff]
    refine and_congr ?_ ?_
    · cases hl : interval.lower with
      | none =>
        rw [hl] at hstart
        obtain rfl : 0 = start := Except.ok.inj hstart
        simp
      | some key =>
        have hsplit := hlower key hl i hi
        simp only [Option.mem_def, Option.some.injEq, forall_eq']
        rw [← Std.not_lt, hsplit, Nat.not_lt]
    · cases hu : interval.upper with
      | none =>
        rw [hu] at hstop
        obtain rfl : segment.size = stop := Except.ok.inj hstop
        simpa [h.size_eq] using hi
      | some key =>
        simp only [Option.mem_def, Option.some.injEq, forall_eq']
        exact hupper key hu i hi

end Segment

/-- The part of a list between two positions is what a test picks out that holds just there. -/
theorem take_drop_eq_filter {α : Type} (p : α → Bool) (xs : List α) (start stop : Nat)
    (h : ∀ (i : Nat) (hi : i < xs.length), p xs[i] = true ↔ start ≤ i ∧ i < stop) :
    (xs.drop start).take (stop - start) = xs.filter p := by
  induction xs generalizing start stop with
  | nil => simp
  | cons x rest ih =>
    have hrest : ∀ (start' stop' : Nat),
        (∀ i, (start ≤ i + 1 ∧ i + 1 < stop) ↔ (start' ≤ i ∧ i < stop')) →
          (rest.drop start').take (stop' - start') = rest.filter p := fun start' stop' hiff =>
      ih start' stop' fun i hi => by
        rw [← hiff i]
        exact h (i + 1) (Nat.succ_lt_succ hi)
    have hx := h 0 (Nat.zero_lt_succ _)
    simp only [List.getElem_cons_zero] at hx
    cases start with
    | zero =>
      cases stop with
      | zero =>
        have hfalse : p x = false := by simpa using hx
        rw [List.filter_cons_of_neg (by simp [hfalse]), ← hrest 0 0 (by omega)]
        simp
      | succ stop =>
        rw [List.filter_cons_of_pos (hx.mpr (by omega)), ← hrest 0 stop (by omega)]
        simp
    | succ start =>
      have hfalse : p x = false := by simpa using hx
      rw [List.filter_cons_of_neg (by simp [hfalse]), List.drop_succ_cons,
        ← hrest start (stop - 1) (by omega)]
      congr 1
      omega

namespace Segment

variable {segment : Segment} {es : List Entry}

/-- **A range yields the entries whose keys lie in its interval.** -/
theorem Holds.range (h : segment.Holds es) (interval : Interval) :
    ∃ cursor, segment.range interval = .ok cursor ∧
      ItemStream.drain cursor =
        (es.filter fun entry => interval.contains entry.key).map .ok := by
  obtain ⟨start, stop, hslots, hle, hcontains⟩ := h.slots interval
  refine ⟨⟨segment, start, max stop start⟩, ?_, ?_⟩
  · simp [Segment.range, hslots, bind, Except.bind, pure, Except.pure]
  · have hwidth : max stop start - start = stop - start := by omega
    rw [h.drain_cursor _ _ hle, hwidth,
      take_drop_eq_filter (fun entry => interval.contains entry.key) es start stop hcontains]

/-- **The items of an interval are the entries whose keys lie in it.** -/
theorem Holds.itemsIn (h : segment.Holds es) (interval : Interval) :
    segment.itemsIn interval =
      (es.filter fun entry => interval.contains entry.key).map .ok := by
  obtain ⟨cursor, hrange, hdrain⟩ := h.range interval
  simp only [Segment.itemsIn, hrange, hdrain]

/-! ## Where a search ends -/

/-- The slot of a search counts the smaller keys. -/
theorem Holds.countP_eq (h : segment.Holds es) {key : Bytes} {position : Position}
    (hfits : position.Fits key es) :
    es.countP (fun entry => decide (entry.key < key)) = position.slot := by
  obtain ⟨hle, hsplit⟩ := h.slot_spec hfits
  have hfront := take_drop_eq_filter (fun entry => decide (entry.key < key)) es 0 position.slot
    fun i hi => by simpa using hsplit i hi
  rw [List.countP_eq_length_filter, ← hfront, List.drop_zero, Nat.sub_zero, List.length_take,
    Nat.min_eq_left hle]

/-- **A search hits a slot exactly if the key is there.** -/
theorem Holds.search_hit_iff (h : segment.Holds es) (key : Bytes) (pos : Nat) :
    segment.search key = .ok (.hit pos) ↔ ∃ hpos : pos < es.length, es[pos].key = key := by
  obtain ⟨position, hsearch, hfits⟩ := h.search key
  constructor
  · intro hhit
    obtain rfl : position = .hit pos := Except.ok.inj (hsearch.symm.trans hhit)
    exact hfits
  · rintro ⟨hpos, rfl⟩
    cases position with
    | hit other =>
      obtain ⟨hother, hkey⟩ := hfits
      rcases Nat.lt_trichotomy other pos with hlt | rfl | hgt
      · exact absurd hkey (Std.ne_of_lt (h.key_lt hlt hpos))
      · exact hsearch
      · exact absurd hkey.symm (Std.ne_of_lt (h.key_lt hgt hother))
    | miss other =>
      obtain ⟨-, hbelow, habove⟩ := hfits
      rcases Nat.lt_or_ge pos other with hlt | hge
      · exact absurd rfl (Std.ne_of_lt (hbelow pos hpos hlt))
      · exact absurd rfl (Std.ne_of_lt (habove pos hpos hge))

/-- **A search for a key that is not there ends behind all smaller keys.** -/
theorem Holds.search_miss (h : segment.Holds es) {key : Bytes} (hnone : ∀ e ∈ es, e.key ≠ key) :
    segment.search key =
      .ok (.miss (es.countP fun entry => decide (entry.key < key))) := by
  obtain ⟨position, hsearch, hfits⟩ := h.search key
  rw [hsearch, h.countP_eq hfits]
  cases position with
  | hit pos =>
    obtain ⟨hpos, hkey⟩ := hfits
    exact absurd hkey (hnone _ (List.getElem_mem hpos))
  | miss pos => rfl

end Segment

end LsmTree
