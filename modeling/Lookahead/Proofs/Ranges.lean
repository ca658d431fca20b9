import Lookahead.Proofs.Permanence

/-!
# Ranges side by side

A range is read off the buffer once its last slot is filled, and what is in a filled slot stays
there. So it makes no difference whether a range is asked for at once or in two parts, the second
after the first: the loop for the second part goes on where the loop for the first one has stopped
(`comesTo_search_search`). A range that no buffer fills is read when the source has ended, which is
to ask for all tokens (`search_all_iff`). `range_algebra` puts this together, for tokens and for
texts.
-/

namespace Lookahead.Stream

variable {σ : Type}

/-! ## Slots side by side -/

theorem slots_eq (s : Stream σ) (first last : Nat) :
    s.slots first last = (s.buffer.toList.drop first).take (last + 1 - first) := by
  rw [slots, Array.toList_extract, List.extract_eq_take_drop]

theorem getElem?_slots (s : Stream σ) (first last j : Nat) :
    (s.slots first last)[j]? = if first + j ≤ last then s.buffer[first + j]? else none := by
  rw [slots_eq, List.getElem?_take, List.getElem?_drop, Array.getElem?_toList]
  exact if_congr (by omega) rfl rfl

theorem slots_of_lt {s : Stream σ} {first last : Nat} (lt : last < first) :
    s.slots first last = [] := by
  rw [slots_eq, Nat.sub_eq_zero_of_le lt, List.take_zero]

theorem slots_self {s : Stream σ} {i : Nat} {t : Token} (held : s.buffer[i]? = some t) :
    s.slots i i = [t] := by
  rw [slots_eq, Nat.add_sub_cancel_left, List.take_one, List.head?_drop, Array.getElem?_toList,
    held, Option.toList_some]

theorem slots_append (s : Stream σ) {first middle last : Nat} (le : first ≤ middle)
    (lt : middle < last) :
    s.slots first middle ++ s.slots (middle + 1) last = s.slots first last := by
  rw [slots, slots, ← Array.toList_append, Array.extract_append_extract,
    Nat.min_eq_left (Nat.le_succ_of_le le), Nat.max_eq_right (Nat.succ_le_succ (Nat.le_of_lt lt)),
    slots]

theorem slots_first {s : Stream σ} {i j : Nat} {t : Token} (le : i ≤ j)
    (held : s.buffer[i]? = some t) : ∃ rest, s.slots i j = [t] ++ rest := by
  rcases Nat.eq_or_lt_of_le le with rfl | lt
  · exact ⟨[], by rw [slots_self held, List.append_nil]⟩
  · exact ⟨_, by rw [← slots_append s (Nat.le_refl i) lt, slots_self held]⟩

theorem slots_last {s : Stream σ} {i j : Nat} {t : Token} (le : i ≤ j)
    (held : s.buffer[j]? = some t) : ∃ front, s.slots i j = front ++ [t] := by
  rcases Nat.eq_or_lt_of_le le with rfl | lt
  · exact ⟨[], by rw [slots_self held, List.nil_append]⟩
  · obtain ⟨m, rfl⟩ : ∃ m, j = m + 1 := ⟨j - 1, by omega⟩
    exact ⟨_, by rw [← slots_append s (Nat.le_of_lt_succ lt) (Nat.lt_succ_self m), slots_self held]⟩

/-- A range that the buffer does not fill goes up to the end of the buffer. -/
theorem slots_of_size_le {s : Stream σ} {last : Nat} (fits : s.size ≤ last + 1) (first : Nat) :
    s.slots first last = s.buffer.toList.drop first := by
  rw [slots_eq, List.take_of_length_le]
  rw [List.length_drop, Array.length_toList, ← size]
  omega

theorem slots_sublist (s : Stream σ) (first last : Nat) :
    (s.slots first last).Sublist s.buffer.toList := by
  rw [slots_eq]
  exact (List.take_sublist _ _).trans (List.drop_sublist _ _)

theorem joinTexts_singleton (t : Token) : joinTexts [t] = t.text := by
  rw [joinTexts, List.map_singleton, String.join_cons, String.join_nil, String.append_empty]

theorem joinTexts_append (xs ys : List Token) :
    joinTexts (xs ++ ys) = joinTexts xs ++ joinTexts ys := by
  rw [joinTexts, List.map_append, String.join_append, joinTexts, joinTexts]

variable [TokenSource σ]

/-! ## One search after another -/

theorem Steady.map {α β : Type} {ready : Stream σ → Bool} {read : Stream σ → α}
    (steady : Steady ready read) (f : α → β) : Steady ready fun s => f (read s) where
  ready_step := steady.ready_step
  read_step step there := congrArg f (steady.read_step step there)

section

variable {ready ready' : Stream σ → Bool}

omit [TokenSource σ] in
theorem waits_of_waits (further : ∀ {s}, ready' s = true → ready s = true) {s : Stream σ}
    (waits : (s.isDry || ready s) = false) : (s.isDry || ready' s) = false := by
  obtain ⟨wet, waiting⟩ := Bool.or_eq_false_iff.1 waits
  rw [wet, Bool.false_or, Bool.eq_false_iff]
  intro there
  rw [further there] at waiting
  cases waiting

theorem perform_pullUntil_succ_bind {α : Type} {s : Stream σ}
    (waits : (s.isDry || ready s) = false) (limit : Nat) (next : Unit → StreamM σ α) :
    (pullUntil ready (limit + 1) >>= next).perform s =
      (pull >>= fun _ => pullUntil ready limit >>= next).perform s := by
  rw [StreamM.perform_bind, perform_pullUntil_succ waits, ← StreamM.perform_bind, bind_assoc]

/-- A loop that follows one which stops no later than it does what it would have done alone. -/
theorem perform_pullUntil_pullUntil (further : ∀ {s}, ready' s = true → ready s = true)
    {limit more : Nat} (le : limit ≤ more) {s : Stream σ}
    (inTime : InTime (pullUntil ready' limit) s) :
    (pullUntil ready limit >>= fun _ => pullUntil ready' more).perform s =
      (pullUntil ready' limit).perform s := by
  -- as long as the first loop waits the second one would, so they make the same pull
  induction limit generalizing s with
  | zero =>
    cases stops : s.isDry || ready s with
    | true =>
      rw [StreamM.perform_bind_of_ok (perform_pullUntil_of_ready stops 0),
        perform_pullUntil_of_le le inTime]
    | false =>
      rw [InTime, perform_pullUntil_zero (waits_of_waits further stops)] at inTime
      exact absurd rfl inTime
  | succ limit ih =>
    cases stops : s.isDry || ready s with
    | true =>
      rw [StreamM.perform_bind_of_ok (perform_pullUntil_of_ready stops _),
        perform_pullUntil_of_le le inTime]
    | false =>
      have waits' : (s.isDry || ready' s) = false := waits_of_waits further stops
      rw [InTime, perform_pullUntil_succ waits', StreamM.perform_bind] at inTime
      rw [perform_pullUntil_succ_bind stops, perform_pullUntil_succ waits', StreamM.perform_bind,
        StreamM.perform_bind]
      rcases pulled : (pull : StreamM σ Unit).perform s with ⟨i | a, t⟩
      · rfl
      · rw [pulled] at inTime
        exact ih (Nat.le_of_succ_le le) inTime

/-- If the two loops do not use up their pulls, neither does the second one alone that may take the
pulls of both. -/
theorem inTime_of_pullUntil_pullUntil (further : ∀ {s}, ready' s = true → ready s = true)
    {limit more : Nat} {s : Stream σ}
    (inTime : InTime (pullUntil ready limit >>= fun _ => pullUntil ready' more) s) :
    InTime (pullUntil ready' (limit + more)) s := by
  induction limit generalizing s with
  | zero =>
    have stops : (s.isDry || ready s) = true := by
      by_contra waits
      exact inTime.of_bind (by rw [perform_pullUntil_zero (Bool.eq_false_iff.2 waits)])
    rw [InTime, StreamM.perform_bind_of_ok (perform_pullUntil_of_ready stops 0)] at inTime
    rwa [Nat.zero_add]
  | succ limit ih =>
    cases stops : s.isDry || ready s with
    | true =>
      rw [InTime, StreamM.perform_bind_of_ok (perform_pullUntil_of_ready stops _)] at inTime
      rwa [InTime, perform_pullUntil_of_le (Nat.le_add_left more _) inTime]
    | false =>
      have waits' : (s.isDry || ready' s) = false := waits_of_waits further stops
      rw [InTime, perform_pullUntil_succ_bind stops, StreamM.perform_bind] at inTime
      rw [InTime, Nat.succ_add, perform_pullUntil_succ waits', StreamM.perform_bind]
      rcases pulled : (pull : StreamM σ Unit).perform s with ⟨i | a, t⟩
      · rw [pulled] at inTime
        exact inTime
      · rw [pulled] at inTime
        exact ih inTime

variable {α β γ : Type} {read : Stream σ → α} {read' : Stream σ → β}

/-- What is read when the first loop has stopped may as well be read in the end. -/
theorem perform_search_search (steady : Steady ready read) (f : α → β → γ) (limit : Nat)
    (s : Stream σ) :
    (search ready read limit >>= fun a => search ready' read' limit >>= fun b =>
        pure (f a b)).perform s =
      ((pullUntil ready limit >>= fun _ => pullUntil ready' limit) >>= fun _ => get >>= fun t =>
        pure (f (read t) (read' t))).perform s := by
  rw [bind_assoc, StreamM.perform_bind, perform_search, StreamM.perform_bind]
  rcases first : (pullUntil ready limit).perform s with ⟨i | a, t⟩
  · rfl
  · dsimp only
    rw [StreamM.perform_bind, perform_search, StreamM.perform_bind]
    rcases second : (pullUntil ready' limit).perform t with ⟨i | b, u⟩
    · rfl
    · have same : read u = read t :=
        (steady.read_pulls (pullUntil_ok second).1 (pullUntil_ok first).2).2
      simp only [StreamM.perform_bind, StreamM.perform_get, StreamM.perform_pure, same]

/-- Two searches one after the other, the first of which stops no later, come to what the second
loop alone comes to, when what both read is read in the end. -/
theorem comesTo_search_search (steady : Steady ready read)
    (further : ∀ {s}, ready' s = true → ready s = true) (f : α → β → γ) {s : Stream σ}
    {outcome : Except Interrupt γ × Stream σ} :
    ComesTo (fun limit => search ready read limit >>= fun a => search ready' read' limit >>=
        fun b => pure (f a b)) s outcome ↔
      ComesTo (search ready' fun s => f (read s) (read' s)) s outcome := by
  have agree {limit : Nat} (inTime : InTime (pullUntil ready' limit) s) :
      (search ready read limit >>= fun a => search ready' read' limit >>= fun b =>
          pure (f a b)).perform s =
        (search ready' (fun s => f (read s) (read' s)) limit).perform s := by
    rw [perform_search_search steady, search, StreamM.perform_bind,
      perform_pullUntil_pullUntil further (Nat.le_refl limit) inTime, ← StreamM.perform_bind]
  constructor
  · rintro ⟨ended, limit, outcomes⟩
    -- the second loop alone may take the pulls of both
    refine ⟨ended, limit + limit, fun more le => ?_⟩
    have le' : limit ≤ more := by omega
    have inTime : InTime (pullUntil ready' (limit + limit)) s := by
      apply inTime_of_pullUntil_pullUntil further
      apply InTime.of_bind
      rw [InTime, ← perform_search_search steady f limit s, outcomes limit (Nat.le_refl limit)]
      exact ended
    have inTime' : InTime (pullUntil ready' more) s := by
      rwa [InTime, perform_pullUntil_of_le le inTime]
    rw [← agree inTime', outcomes more le']
  · rintro ⟨ended, limit, outcomes⟩
    refine ⟨ended, limit, fun more le => ?_⟩
    have inTime : InTime (search ready' (fun s => f (read s) (read' s)) more) s := by
      rw [InTime, outcomes more le]
      exact ended
    rw [agree inTime.of_bind, outcomes more le]

end

/-! ## Searches that wait for the end -/

/-- A loop goes the same way as the one that waits for the end of the source, unless it is ready
before. -/
theorem pullUntil_unless_ready {ready : Stream σ → Bool}
    (grown : ∀ {s t}, s.Within t → ready s = true → ready t = true) (limit : Nat) (s : Stream σ) :
    (pullUntil ready limit).perform s = (fill limit).perform s ∨
      ready ((pullUntil ready limit).perform s).2 = true ∧
        ready ((fill limit).perform s).2 = true := by
  have stays (limit : Nat) {s : Stream σ} (there : ready s = true) :
      ready ((pullUntil ready limit).perform s).2 = true ∧
        ready ((fill limit).perform s).2 = true :=
    ⟨grown (operates_pullUntil _ limit s).extends.within there,
      grown (operates_pullUntil _ limit s).extends.within there⟩
  have idle (limit : Nat) {s : Stream σ} (dry : s.isDry = true) :
      (pullUntil ready limit).perform s = (fill limit).perform s := by
    rw [fill, perform_pullUntil_of_ready (by rw [dry, Bool.true_or]),
      perform_pullUntil_of_ready (by rw [dry, Bool.true_or])]
  induction limit generalizing s with
  | zero =>
    cases there : ready s with
    | true => exact Or.inr (stays 0 there)
    | false =>
      cases dry : s.isDry with
      | true => exact Or.inl (idle 0 dry)
      | false =>
        left
        rw [fill, perform_pullUntil_zero (by rw [dry, there, Bool.or_false]),
          perform_pullUntil_zero (by rw [dry, Bool.or_false])]
  | succ limit ih =>
    cases there : ready s with
    | true => exact Or.inr (stays _ there)
    | false =>
      cases dry : s.isDry with
      | true => exact Or.inl (idle _ dry)
      | false =>
        rw [fill, perform_pullUntil_succ (by rw [dry, there, Bool.or_false]),
          perform_pullUntil_succ (by rw [dry, Bool.or_false]), StreamM.perform_bind,
          StreamM.perform_bind]
        rcases (pull : StreamM σ Unit).perform s with ⟨i | a, t⟩
        · exact Or.inl rfl
        · exact ih t

/-- What it takes for a search to have a result. -/
theorem perform_search_eq_iff {α : Type} {ready : Stream σ → Bool} {read : Stream σ → α}
    {limit : Nat} {s t : Stream σ} {result : Except Interrupt α} :
    (search ready read limit).perform s = (result, t) ↔
      ∃ r, (pullUntil ready limit).perform s = (r, t) ∧ result = r.map fun _ => read t := by
  rw [perform_search]
  rcases (pullUntil ready limit).perform s with ⟨i | ⟨⟩, u⟩
  · constructor
    · intro h
      cases h
      exact ⟨_, rfl, rfl⟩
    · rintro ⟨r, h, rfl⟩
      cases h
      rfl
  · constructor
    · intro h
      cases h
      exact ⟨_, rfl, rfl⟩
    · rintro ⟨r, h, rfl⟩
      cases h
      rfl

/-- A search that is not ready in the end has waited for the end of the source. -/
theorem search_all_iff {α : Type} {ready : Stream σ → Bool} {read read' : Stream σ → α}
    (grown : ∀ {s t}, s.Within t → ready s = true → ready t = true) {limit : Nat} {s t : Stream σ}
    (unready : ready t = false) (same : read t = read' t) {result : Except Interrupt α} :
    (search ready read limit).perform s = (result, t) ↔
      (search (fun _ => false) read' limit).perform s = (result, t) := by
  have alike (r : Except Interrupt Unit) :
      (pullUntil ready limit).perform s = (r, t) ↔ (fill limit).perform s = (r, t) := by
    rcases pullUntil_unless_ready grown limit s with alike | ⟨there, there'⟩
    · rw [alike]
    · constructor
      · intro h
        rw [h, unready] at there
        cases there
      · intro h
        rw [h, unready] at there'
        cases there'
  rw [perform_search_eq_iff, perform_search_eq_iff, same]
  exact exists_congr fun r => and_congr_left' (alike r)

theorem comesTo_search {α : Type} {ready : Stream σ → Bool} {read : Stream σ → α} {limit : Nat}
    {s : Stream σ} (inTime : InTime (search ready read limit) s) :
    ComesTo (search ready read) s ((search ready read limit).perform s) := by
  refine ⟨inTime, limit, fun more le => ?_⟩
  rw [perform_search, perform_search, perform_pullUntil_of_le le inTime.of_bind]

/-! ## Ranges and texts as searches -/

/-- Reads the slots of a range in some way, once the last of them is filled. -/
def readSlots {α : Type} (f : List Token → α) (limit first last : Nat) : StreamM σ α :=
  search (fun s => last < s.size) (fun s => f (s.slots first last)) limit

/-- Reads all slots in some way, once the source has ended. -/
def readAll {α : Type} (f : List Token → α) (limit : Nat) : StreamM σ α :=
  search (fun _ => false) (fun s => f s.buffer.toList) limit

theorem range_of_le {first last : Nat} (le : first ≤ last) (limit : Nat) :
    (range limit first last : StreamM σ (List Token)) = readSlots id limit first last := by
  unfold range
  rw [if_neg (Nat.not_lt_of_le le)]
  rfl

theorem textRange_of_le {first last : Nat} (le : first ≤ last) (limit : Nat) :
    (textRange limit first last : StreamM σ String) = readSlots joinTexts limit first last := by
  rw [textRange, range_of_le le]
  simp only [readSlots, search, bind_assoc, pure_bind, id_eq]

theorem tokens_eq (limit : Nat) : (tokens limit : StreamM σ (List Token)) = readAll id limit := rfl

theorem text_eq (limit : Nat) : (text limit : StreamM σ String) = readAll joinTexts limit := by
  rw [text, tokens_eq]
  simp only [readAll, search, bind_assoc, pure_bind, id_eq]

theorem tokens_sublist {limit : Nat} {s t : Stream σ} {found : List Token}
    (h : (tokens limit).perform s = (.ok found, t)) : found.Sublist t.buffer.toList := by
  rw [tokens_eq, readAll] at h
  obtain ⟨-, rfl⟩ := search_ok h
  exact List.Sublist.refl _

theorem range_sublist {limit first last : Nat} {s t : Stream σ} {found : List Token}
    (h : (range limit first last).perform s = (.ok found, t)) : found.Sublist t.buffer.toList := by
  unfold range at h
  split at h
  · cases h
    exact List.nil_sublist _
  · obtain ⟨-, rfl⟩ := search_ok h
    exact slots_sublist t first last

theorem rangeWhere_sublist {limit first last : Nat} {test : Kind → Bool} {s t : Stream σ}
    {found : List Token} (h : (rangeWhere limit first last test).perform s = (.ok found, t)) :
    found.Sublist t.buffer.toList := by
  rcases StreamM.perform_bind_ok h with ⟨all, u, listed, h⟩
  cases h
  exact List.filter_sublist.trans (range_sublist listed)

section

variable {α : Type} {f : List Token → α} {s : Stream σ}

/-- A range that is read in two parts comes to what it comes to when it is read at once. -/
theorem comesTo_readSlots_append {join : α → α → α}
    (joined : ∀ xs ys, f (xs ++ ys) = join (f xs) (f ys)) {first middle last : Nat}
    (le : first ≤ middle) (lt : middle < last) {outcome : Except Interrupt α × Stream σ} :
    ComesTo (fun limit => readSlots f limit first middle >>= fun front =>
        readSlots f limit (middle + 1) last >>= fun back => pure (join front back)) s outcome ↔
      ComesTo (readSlots f · first last) s outcome := by
  have further {s : Stream σ} (filled : decide (last < s.size) = true) :
      decide (middle < s.size) = true :=
    decide_eq_true (Nat.lt_trans lt (of_decide_eq_true filled))
  have whole : (fun s : Stream σ => join (f (s.slots first middle)) (f (s.slots (middle + 1) last)))
      = fun s => f (s.slots first last) := by
    funext s
    rw [← joined, slots_append s le lt]
  have steady := (lasting_range (σ := σ) first middle).steady.map f
  simp only [readSlots]
  rw [comesTo_search_search steady further, whole]

/-- A range whose last slot is not filled in the end is all there is. -/
theorem readSlots_all_iff {limit last : Nat} {t : Stream σ} (fits : t.size ≤ last)
    {result : Except Interrupt α} :
    (readSlots f limit 0 last).perform s = (result, t) ↔
      (readAll f limit).perform s = (result, t) :=
  search_all_iff (lasting_range 0 last).ready_grown (decide_eq_false (Nat.not_lt_of_le fits))
    (congrArg f (slots_of_size_le (Nat.le_succ_of_le fits) 0))

end

/-- The text of a range is that of its tokens. -/
theorem textRange_ok_iff {limit first last : Nat} {s t : Stream σ} {text : String} :
    (textRange limit first last).perform s = (.ok text, t) ↔
      ∃ found, (range limit first last).perform s = (.ok found, t) ∧ text = joinTexts found := by
  rw [textRange]
  constructor
  · intro h
    rcases StreamM.perform_bind_ok h with ⟨found, u, listed, h⟩
    cases h
    exact ⟨found, listed, rfl⟩
  · rintro ⟨found, listed, rfl⟩
    exact StreamM.perform_bind_of_ok listed _

/-- The slots of a range that has been listed are read one by one without a pull. There is nothing
in those that come after the last one listed. -/
theorem get_of_range {limit first last j : Nat} {s t : Stream σ} {found : List Token}
    (listed : (range limit first last).perform s = (.ok found, t))
    (inside : j < found.length ∨ first + j ≤ last) (more : Nat) :
    (get? more (first + j)).perform t = (.ok found[j]?, t) := by
  by_cases le : first ≤ last
  · rw [range_of_le le] at listed
    obtain ⟨loop, rfl⟩ := search_ok listed
    rw [id_eq] at inside ⊢
    have within : first + j ≤ last := by
      by_contra beyond
      have absent := getElem?_slots t first last j
      rw [if_neg beyond, List.getElem?_eq_none_iff] at absent
      omega
    have stops : (t.isDry || decide (first + j < t.size)) = true := by
      have stopped := (pullUntil_ok loop).2
      rw [Bool.or_eq_true] at stopped ⊢
      refine stopped.imp_right fun filled => ?_
      exact decide_eq_true (Nat.lt_of_le_of_lt within (of_decide_eq_true filled))
    rw [getElem?_slots, if_pos within]
    exact StreamM.perform_bind_of_ok (perform_pullUntil_of_ready stops more) _
  · unfold range at listed
    rw [if_pos (Nat.lt_of_not_le le)] at listed
    cases listed
    have none : ¬ j < ([] : List Token).length := Nat.not_lt_zero j
    omega

/-! ## The result -/

/-- A range in two parts, the second after the first, comes to what the whole range comes to: the
same tokens after the same pulls, or the same error. So does its text. A range whose last slot the
buffer does not come to is all the tokens there are. In the slots of a range that has been listed
are its elements, one after the other, and nothing after the last one. The text of a range is that
of its elements. -/
theorem range_algebra (s : Stream σ) :
    (∀ {first middle last : Nat}, first ≤ middle → middle < last →
      (∀ outcome,
        ComesTo (fun limit => do
            let front ← range limit first middle
            let back ← range limit (middle + 1) last
            pure (front ++ back)) s outcome ↔
          ComesTo (range · first last) s outcome) ∧
      ∀ outcome,
        ComesTo (fun limit => do
            let front ← textRange limit first middle
            let back ← textRange limit (middle + 1) last
            pure (front ++ back)) s outcome ↔
          ComesTo (textRange · first last) s outcome) ∧
    (∀ (limit last : Nat) (t : Stream σ), t.size ≤ last →
      (∀ result, (range limit 0 last).perform s = (result, t) ↔
        (tokens limit).perform s = (result, t)) ∧
      ∀ result, (textRange limit 0 last).perform s = (result, t) ↔
        (text limit).perform s = (result, t)) ∧
    ∀ (limit first last : Nat) (t : Stream σ),
      (∀ found, (range limit first last).perform s = (.ok found, t) →
        ∀ j, j < found.length ∨ first + j ≤ last →
          ∀ more, (get? more (first + j)).perform t = (.ok found[j]?, t)) ∧
      ∀ text, (textRange limit first last).perform s = (.ok text, t) ↔
        ∃ found, (range limit first last).perform s = (.ok found, t) ∧
          text = String.join (found.map Token.text) := by
  refine ⟨fun {first middle last} le lt => ?_, fun limit last t fits => ?_,
    fun limit first last t => ⟨fun found listed j inside => get_of_range listed inside,
      fun text => textRange_ok_iff⟩⟩
  · have lt' : middle + 1 ≤ last := lt
    have le' : first ≤ last := Nat.le_trans le (Nat.le_of_lt lt)
    constructor
    · intro outcome
      simp only [range_of_le le, range_of_le lt', range_of_le le']
      exact comesTo_readSlots_append (fun _ _ => rfl) le lt
    · intro outcome
      simp only [textRange_of_le le, textRange_of_le lt', textRange_of_le le']
      exact comesTo_readSlots_append joinTexts_append le lt
  · rw [range_of_le (Nat.zero_le last), textRange_of_le (Nat.zero_le last), tokens_eq, text_eq]
    exact ⟨fun _ => readSlots_all_iff fits, fun _ => readSlots_all_iff fits⟩

/-- A word, a blank and another word: the range of the first six slots takes four pulls, and so it
does when it is asked for in two parts. It is all there is. -/
theorem range_algebra_split :
    let word := fun text => Token.plain 7 text .unplaced
    let blank := Token.onChannel 5 .hidden " " .unplaced
    let source := Metered.fresh
      (ListedSource.ofList [word "a", blank, word "b", .endOfStream .unplaced])
    let s := start .standard source
    let t := ((range 9 0 5).perform s).2
    let found := [(word "a").stamp 0, blank.stamp 1, (word "b").stamp 2]
    (range 9 0 5).perform s = (.ok found, t) ∧ t.source.pulls = 4 ∧
      (0 ≤ 1 ∧ 1 < 5 ∧ ComesTo (range · 0 5) s (.ok found, t) ∧
        ComesTo (fun limit => do
            let front ← range limit 0 1
            let back ← range limit 2 5
            pure (front ++ back)) s (.ok found, t)) ∧
      (t.size ≤ UInt64.size - 1 ∧ (tokens 9).perform s = (.ok found, t) ∧
        (range 9 0 (UInt64.size - 1)).perform s = (.ok found, t)) ∧
      (0 + 4 ≤ 5 ∧ (get? 0 4).perform t = (.ok none, t)) := by
  intro word blank source s t found
  have answer : ((range 9 0 5).perform s).1 = .ok found := by decide +kernel
  have listed : (range 9 0 5).perform s = (.ok found, t) := by rw [← answer]
  have comes : ComesTo (range · 0 5) s (.ok found, t) := by
    simp only [range_of_le (Nat.zero_le 5)] at listed ⊢
    rw [← listed]
    exact comesTo_search (inTime_of_ok listed)
  have fits : t.size ≤ UInt64.size - 1 := by decide +kernel
  have all : (tokens 9).perform s = (.ok found, t) :=
    (((range_algebra s).2.1 9 5 t (by decide +kernel)).1 _).1 listed
  refine ⟨listed, by decide +kernel, ⟨by decide, by decide, comes, ?_⟩,
    ⟨fits, all, ?_⟩, by decide, ?_⟩
  · exact (((range_algebra s).1 (by decide) (by decide)).1 _).2 comes
  · exact (((range_algebra s).2.1 9 (UInt64.size - 1) t fits).1 _).2 all
  · exact ((range_algebra s).2.2 9 0 5 t).1 found listed 4 (Or.inr (by decide)) 0

end Lookahead.Stream
