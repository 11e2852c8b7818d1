import OnePass.Stream
import Mathlib.Data.List.Nodup
import Mathlib.Data.List.Perm.Subperm

/-!
# Streams as lists of instructions

The operations of a stream change links between slots.  As long as the links lead through the slots
in one order, there and back, each of them is an operation on the list of instructions: an
instruction is put at a place that is given by a split of the list, or is taken out there.

Main results:

* `Stream.Threads.ids_eq` — **a walk comes to the numbers that the links lead through**;
* `Stream.toList_append`, `Stream.insertBefore_split`, `Stream.deleteAfter_split` — what the
  operations do to a split list;
* `Stream.toList_modify_range` — a change of a range changes its piece of code and nothing else;
* `Stream.findBackward?_eq_some` — a search splits the list at the last hit.
-/

namespace OnePass.Stream

open List

variable {id last : Nat} {order pre post : List Nat} {stream : Stream} {entry : Entry}

/-! ### Neighbours in a list -/

/-- The number after another one in a list. -/
def after (id : Nat) : List Nat → Option Nat
  | a :: b :: rest => if a = id then some b else after id (b :: rest)
  | _ => none

theorem after_cons (id a : Nat) (rest : List Nat) :
    after id (a :: rest) = if a = id then rest.head? else after id rest := by
  cases rest with
  | nil => simp [after]
  | cons b rest => rfl

theorem after_of_notMem (h : id ∉ order) : after id order = none := by
  induction order with
  | nil => rfl
  | cons a order ih =>
    obtain ⟨ha, horder⟩ := not_or.1 (mem_cons.not.1 h)
    rw [after_cons, if_neg (Ne.symm ha), ih horder]

/-- What comes after the last number of a first part is the first one of the second part. -/
theorem after_append_of_notMem (h : id ∉ pre) : after id (pre ++ id :: post) = post.head? := by
  induction pre with
  | nil => rw [nil_append, after_cons, if_pos rfl]
  | cons a pre ih =>
    obtain ⟨ha, hpre⟩ := not_or.1 (mem_cons.not.1 h)
    rw [cons_append, after_cons, if_neg (Ne.symm ha), ih hpre]

/-- A number in the middle of a list comes between two numbers, and for all others nothing has
changed. -/
theorem after_insert {new : Nat} (h : (pre ++ new :: post).Nodup) (id : Nat) : after id (pre ++ new :: post) =
      if id = new then post.head?
      else if pre.getLast? = some id then some new
      else after id (pre ++ post) := by
  induction pre with
  | nil =>
    rw [nil_append, nil_append, after_cons]
    by_cases hid : id = new
    · rw [if_pos hid, if_pos hid.symm]
    · rw [if_neg hid, if_neg (Ne.symm hid), if_neg nofun]
  | cons a pre ih =>
    obtain ⟨ha, hrest⟩ := nodup_cons.1 h
    have hanew : a ≠ new := fun heq => ha (heq ▸ by simp)
    rw [cons_append, cons_append, after_cons, after_cons, ih hrest]
    cases pre with
    | nil =>
      by_cases hid : id = new
      · simp [hid, hanew]
      · by_cases haid : a = id <;> simp [hid, haid]
    | cons b pre =>
      by_cases haid : a = id
      · subst haid
        have hlast : (b :: pre).getLast? ≠ some a :=
          fun heq => ha (mem_append_left _ (mem_of_getLast? heq))
        simp only [cons_append, List.head?_cons, List.getLast?_cons_cons, if_true, hanew,
          if_false, hlast]
      · simp only [cons_append, List.getLast?_cons_cons, haid, if_false]

theorem after_reverse_insert {new : Nat} (h : (pre ++ new :: post).Nodup) (id : Nat) :
    after id (pre ++ new :: post).reverse = if id = new then pre.getLast?
      else if post.head? = some id then some new
      else after id (pre ++ post).reverse := by
  have hreverse : (pre ++ new :: post).reverse = post.reverse ++ new :: pre.reverse := by simp
  have hnodup : (post.reverse ++ new :: pre.reverse).Nodup :=
    hreverse ▸ nodup_reverse.2 h
  rw [hreverse, after_insert hnodup, List.head?_reverse, List.getLast?_reverse, reverse_append]

/-! ### Streams with one order -/

/-- The links of a stream lead through the numbers of a list, there and back, and all other slots
are without links. -/
structure Threads (stream : Stream) (order : List Nat) : Prop where
  nodup : order.Nodup
  first : order.head? = some 0
  last : order.getLast? = some stream.tail
  length : stream.length = order.length
  bounded : ∀ id ∈ order, id < stream.issued
  links : ∀ id slot, stream.slots[id]? = some slot →
    slot.next = after id order ∧ slot.prev = after id order.reverse

/-- The links of a stream lead through the instructions in order. -/
def Sound (stream : Stream) : Prop := stream.Threads stream.ids

/-- The instructions in order. -/
def code (stream : Stream) : List Instruction := stream.toList.map (·.instruction)

/-- The entry under a number. -/
def lookup? (stream : Stream) (id : Nat) : Option Entry :=
  stream.slots[id]?.map fun slot => ⟨id, slot.instruction⟩

theorem lookup?_eq_some (h : stream.lookup? id = some entry) : entry.id = id := by
  obtain ⟨slot, -, rfl⟩ := Option.map_eq_some_iff.1 h
  rfl

theorem exists_lookup? (h : id < stream.issued) : ∃ entry, stream.lookup? id = some entry :=
  ⟨_, by rw [lookup?, Array.getElem?_eq_getElem h, Option.map_some]⟩

theorem walk_eq {link : Slot → Option Nat} (hnodup : order.Nodup)
    (hbounded : ∀ id ∈ order, id < stream.issued)
    (hlink : ∀ id slot, stream.slots[id]? = some slot → link slot = after id order) :
    ∀ post pre fuel, order = pre ++ post → post.length ≤ fuel →
      walk stream.slots link fuel post.head? = post.filterMap stream.lookup? := by
  intro post
  induction post with
  | nil =>
    intro pre fuel _ _
    cases fuel <;> rfl
  | cons id post ih =>
    intro pre fuel horder hfuel
    obtain ⟨fuel, rfl⟩ : ∃ k, fuel = k + 1 := ⟨fuel - 1, by simp at hfuel; omega⟩
    have hid : id < stream.slots.size := hbounded id (horder ▸ by simp)
    have hpre : id ∉ pre := by
      rw [horder, nodup_append] at hnodup
      exact fun hmem => hnodup.2.2 id hmem id mem_cons_self rfl
    have hnext : link stream.slots[id] = post.head? := by
      rw [hlink id _ (Array.getElem?_eq_getElem hid), horder, after_append_of_notMem hpre]
    have hrest := ih (pre ++ [id]) fuel (by rw [horder, append_assoc]; rfl) (by simp at hfuel; omega)
    simp only [List.head?_cons, walk, Array.getElem?_eq_getElem hid, filterMap_cons, lookup?,
      Option.map_some, hnext, hrest]

theorem map_id_filterMap_lookup? (h : ∀ id ∈ order, id < stream.issued) :
    (order.filterMap stream.lookup?).map (·.id) = order := by
  induction order with
  | nil => rfl
  | cons id order ih =>
    obtain ⟨entry, hentry⟩ := exists_lookup? (h id mem_cons_self)
    rw [filterMap_cons_some hentry, map_cons, lookup?_eq_some hentry,
      ih fun id hid => h id (mem_cons_of_mem _ hid)]

section Threads

variable {stream : Stream} {order : List Nat}

theorem Threads.length_le (h : stream.Threads order) : order.length ≤ stream.issued := by
  have hsub : order ⊆ List.range stream.issued := fun id hid => mem_range.2 (h.bounded id hid)
  have hlength := (subperm_of_subset h.nodup hsub).length_le
  rwa [length_range] at hlength

theorem Threads.toList_eq (h : stream.Threads order) : stream.toList = order.filterMap stream.lookup? := by
  rw [toList, ← h.first]
  exact walk_eq h.nodup h.bounded (fun id slot hslot => (h.links id slot hslot).1) order [] _ rfl h.length_le

theorem Threads.backward_eq (h : stream.Threads order) :
    stream.backward = order.reverse.filterMap stream.lookup? := by
  have hbounded : ∀ id ∈ order.reverse, id < stream.issued :=
    fun id hid => h.bounded id (mem_reverse.1 hid)
  rw [backward, ← h.last, ← List.head?_reverse]
  refine walk_eq (nodup_reverse.2 h.nodup) hbounded
    (fun id slot hslot => (h.links id slot hslot).2) order.reverse [] _ rfl ?_
  rw [length_reverse]
  exact h.length_le

/-- **A walk comes to the numbers that the links lead through.** -/
theorem Threads.ids_eq (h : stream.Threads order) : stream.ids = order := by
  rw [ids, h.toList_eq, map_id_filterMap_lookup? h.bounded]

theorem Threads.sound (h : stream.Threads order) : stream.Sound := by
  rw [Sound, h.ids_eq]
  exact h

end Threads

theorem Sound.threads (h : stream.Sound) (hids : stream.ids = order) : stream.Threads order := by
  rw [← hids]
  exact h

theorem start_sound : start.Sound := by
  have hthreads : start.Threads [0] := by
    refine ⟨nodup_singleton 0, rfl, rfl, rfl, ?_, ?_⟩
    · intro id hid
      rw [mem_singleton.1 hid]
      decide
    · intro id slot hslot
      obtain ⟨hid, rfl⟩ := Array.getElem?_eq_some_iff.1 hslot
      obtain rfl : id = 0 := Nat.lt_one_iff.1 hid
      exact ⟨rfl, rfl⟩
  exact hthreads.sound

section Sound

variable {stream : Stream}

theorem Sound.lookup?_of_mem (h : stream.Sound) (hmem : entry ∈ stream.toList) :
    stream.lookup? entry.id = some entry := by
  rw [h.toList_eq] at hmem
  obtain ⟨id, -, hentry⟩ := mem_filterMap.1 hmem
  rw [lookup?_eq_some hentry, hentry]

theorem Sound.backward_eq (h : stream.Sound) : stream.backward = stream.toList.reverse := by
  rw [Threads.backward_eq h, filterMap_reverse, ← Threads.toList_eq h]

end Sound

theorem Threads.next?_split (h : stream.Threads (pre ++ id :: post)) : stream.next? id = post.head? := by
  have hid : id < stream.slots.size := h.bounded id (by simp)
  have hpre : id ∉ pre := fun hmem =>
    (nodup_append.1 h.nodup).2.2 id hmem id mem_cons_self rfl
  rw [next?, Array.getElem?_eq_getElem hid, Option.bind_some,
    (h.links id _ (Array.getElem?_eq_getElem hid)).1, after_append_of_notMem hpre]

theorem Threads.prev?_split (h : stream.Threads (pre ++ id :: post)) : stream.prev? id = pre.getLast? := by
  have hid : id < stream.slots.size := h.bounded id (by simp)
  have hpost : id ∉ post.reverse := fun hmem =>
    (nodup_cons.1 (nodup_append.1 h.nodup).2.1).1 (mem_reverse.1 hmem)
  have hreverse : (pre ++ id :: post).reverse = post.reverse ++ id :: pre.reverse := by simp
  rw [prev?, Array.getElem?_eq_getElem hid, Option.bind_some,
    (h.links id _ (Array.getElem?_eq_getElem hid)).2, hreverse, after_append_of_notMem hpost,
    List.head?_reverse]

theorem Threads.isolated (h : stream.Threads order) (hid : id ∉ order) :
    stream.next? id = none ∧ stream.prev? id = none := by
  cases hslot : stream.slots[id]? with
  | none => rw [next?, prev?, hslot]; exact ⟨rfl, rfl⟩
  | some slot =>
    obtain ⟨hnext, hprev⟩ := h.links id slot hslot
    rw [next?, prev?, hslot, Option.bind_some, Option.bind_some, hnext, hprev,
      after_of_notMem hid, after_of_notMem (mt mem_reverse.1 hid)]
    exact ⟨rfl, rfl⟩

/-! ### Putting an instruction into the order -/

theorem Threads.issued_notMem (h : stream.Threads order) : stream.issued ∉ order :=
  fun hmem => Nat.lt_irrefl _ (h.bounded _ hmem)

/-- What a stream is like after an instruction has been put between two parts of its order: the new
slot is linked to its neighbours, and they are linked to it. -/
structure Inserts (stream grown : Stream) (pre post : List Nat) (instruction : Instruction) : Prop where
  issued : grown.issued = stream.issued + 1
  tail : grown.tail = if post = [] then stream.issued else stream.tail
  length : grown.length = stream.length + 1
  new : grown.slots[stream.issued]? = some ⟨instruction, pre.getLast?, post.head?⟩
  other : ∀ id, id ≠ stream.issued → grown.slots[id]? = stream.slots[id]?.map fun slot =>
    { slot with
      prev := if post.head? = some id then some stream.issued else slot.prev
      next := if pre.getLast? = some id then some stream.issued else slot.next }

/-- **The new number stands between the two parts.** -/
theorem Inserts.threads {grown : Stream} {instruction : Instruction}
    (h : stream.Inserts grown pre post instruction) (hthreads : stream.Threads (pre ++ post))
    (hpre : pre ≠ []) : grown.Threads (pre ++ stream.issued :: post) := by
  have hnodup : (pre ++ stream.issued :: post).Nodup :=
    nodup_middle.2 (nodup_cons.2 ⟨hthreads.issued_notMem, hthreads.nodup⟩)
  refine ⟨hnodup, ?_, ?_, ?_, ?_, ?_⟩
  · obtain ⟨a, rest, rfl⟩ := exists_cons_of_ne_nil hpre
    exact hthreads.first
  · have hlast := hthreads.last
    cases post with
    | nil => rw [List.getLast?_append, h.tail, if_pos rfl]; rfl
    | cons b post =>
      rw [List.getLast?_append] at hlast ⊢
      rw [h.tail, if_neg (cons_ne_nil b post), List.getLast?_cons_cons, hlast]
  · rw [h.length, hthreads.length, length_append, length_append, length_cons]
    omega
  · intro id hid
    rw [h.issued]
    rcases mem_cons.1 (perm_middle.subset hid) with rfl | hid
    · exact Nat.lt_succ_self _
    · exact Nat.lt_succ_of_lt (hthreads.bounded id hid)
  · intro id slot hslot
    rw [after_insert hnodup, after_reverse_insert hnodup]
    by_cases hid : id = stream.issued
    · subst hid
      cases h.new.symm.trans hslot
      rw [if_pos rfl, if_pos rfl]
      exact ⟨rfl, rfl⟩
    · rw [h.other id hid] at hslot
      obtain ⟨old, hold, rfl⟩ := Option.map_eq_some_iff.1 hslot
      obtain ⟨hnext, hprev⟩ := hthreads.links id old hold
      rw [if_neg hid, if_neg hid, ← hnext, ← hprev]
      exact ⟨rfl, rfl⟩

/-- The entries of some instructions are found in every stream with the same slots for them. -/
theorem Sound.filterMap_lookup? {other : Stream} (h : stream.Sound)
    (hother : ∀ id ∈ stream.ids, other.lookup? id = stream.lookup? id) {part : List Entry}
    (hpart : part ⊆ stream.toList) : (part.map (·.id)).filterMap other.lookup? = part := by
  induction part with
  | nil => rfl
  | cons entry part ih =>
    obtain ⟨hentry, hrest⟩ := cons_subset.1 hpart
    rw [map_cons, filterMap_cons, hother entry.id (mem_map_of_mem hentry),
      h.lookup?_of_mem hentry]
    exact congrArg (entry :: ·) (ih hrest)

theorem Inserts.toList {grown : Stream} {pre post : List Entry} {instruction : Instruction}
    (h : stream.Inserts grown (pre.map (·.id)) (post.map (·.id)) instruction) (hsound : stream.Sound)
    (hsplit : stream.toList = pre ++ post) (hpre : pre ≠ []) :
    grown.toList = pre ++ ⟨stream.issued, instruction⟩ :: post ∧ grown.Sound := by
  have hids : stream.ids = pre.map (·.id) ++ post.map (·.id) := by rw [ids, hsplit, map_append]
  have hthreads := h.threads (hsound.threads hids) (by simpa using hpre)
  have hnew : grown.lookup? stream.issued = some ⟨stream.issued, instruction⟩ := by
    rw [lookup?, h.new, Option.map_some]
  have hold : ∀ id ∈ stream.ids, grown.lookup? id = stream.lookup? id := by
    intro id hid
    rw [lookup?, lookup?, h.other id (Nat.ne_of_lt (Threads.bounded hsound id hid)), Option.map_map]
    rfl
  refine ⟨?_, hthreads.sound⟩
  rw [hthreads.toList_eq, filterMap_append, filterMap_cons, hnew,
    hsound.filterMap_lookup? hold (hsplit ▸ subset_append_left pre post),
    hsound.filterMap_lookup? hold (hsplit ▸ subset_append_right pre post)]

theorem getElem?_push_of_ne (slots : Array Slot) (new : Slot) (h : id ≠ slots.size) :
    (slots.push new)[id]? = slots[id]? := by
  rw [Array.getElem?_push, if_neg h]

/-! ### Adding at the end -/

@[simp] theorem issued_append (stream : Stream) (instruction : Instruction) :
    (stream.append instruction).1.issued = stream.issued + 1 := by
  simp [append, linkNext, issued]

theorem Sound.inserts_append (h : stream.Sound) (instruction : Instruction) :
    stream.Inserts (stream.append instruction).1 stream.ids [] instruction := by
  have hlast : stream.ids.getLast? = some stream.tail := h.last
  have htail : stream.tail < stream.slots.size := Threads.bounded h _ (mem_of_getLast? h.last)
  refine ⟨issued_append stream instruction, (if_pos rfl).symm, rfl, ?_, ?_⟩
  · simp only [append, linkNext, issued, Array.getElem?_modify, Array.getElem?_push_size,
      if_neg (Nat.ne_of_lt htail), hlast]
    rfl
  · intro id hid
    simp only [append, linkNext, Array.getElem?_modify, getElem?_push_of_ne _ _ hid, hlast, Option.some.injEq]
    by_cases heq : stream.tail = id <;> cases stream.slots[id]? <;> simp [heq]

theorem Sound.toList_ne_nil (h : stream.Sound) : stream.toList ≠ [] := by
  intro hnil
  have hfirst : stream.ids.head? = some 0 := h.first
  rw [ids, hnil] at hfirst
  cases hfirst

theorem toList_append (h : stream.Sound) (instruction : Instruction) :
    (stream.append instruction).1.toList = stream.toList ++ [⟨stream.issued, instruction⟩] :=
  (@Inserts.toList stream _ stream.toList [] instruction (h.inserts_append instruction) h
    (append_nil _).symm h.toList_ne_nil).1

theorem code_append (h : stream.Sound) (instruction : Instruction) :
    (stream.append instruction).1.code = stream.code ++ [instruction] := by
  rw [code, toList_append h, map_append]
  rfl

theorem Sound.append (h : stream.Sound) (instruction : Instruction) : (stream.append instruction).1.Sound :=
  ((h.inserts_append instruction).threads (by rwa [append_nil]) (by simpa [ids] using h.toList_ne_nil)).sound

/-! ### Putting an instruction before another -/

theorem Threads.setCursor (h : stream.Threads order) (id : Nat) : (stream.setCursor id).Threads order :=
  ⟨h.nodup, h.first, h.last, h.length, h.bounded, h.links⟩

theorem Sound.setCursor (h : stream.Sound) (id : Nat) : (stream.setCursor id).Sound :=
  (Threads.setCursor h id).sound

theorem Threads.insertBefore {prev : Nat} (h : stream.Threads (pre ++ prev :: stream.cursor :: post))
    (instruction : Instruction) :
    ∃ grown, stream.insertBefore instruction = .ok (grown, stream.issued) ∧
      stream.Inserts grown (pre ++ [prev]) (stream.cursor :: post) instruction := by
  have hprev : stream.prev? stream.cursor = some prev := by
    have hsplit : stream.Threads ((pre ++ [prev]) ++ stream.cursor :: post) := by
      rwa [append_assoc]
    rw [hsplit.prev?_split, List.getLast?_concat]
  have hne : prev ≠ stream.cursor := by
    have hnodup := (nodup_append.1 h.nodup).2.1
    exact fun heq => (nodup_cons.1 hnodup).1 (heq ▸ mem_cons_self)
  have hprevlt : prev < stream.slots.size := h.bounded prev (by simp)
  have hcursorlt : stream.cursor < stream.slots.size := h.bounded stream.cursor (by simp)
  unfold Stream.insertBefore
  rw [hprev]
  refine ⟨_, rfl, ?_, (if_neg (cons_ne_nil _ _)).symm, rfl, ?_, ?_⟩
  · simp [linkPrev, linkNext, issued]
  · simp only [linkPrev, linkNext, issued, Array.getElem?_modify, Array.getElem?_push_size,
      if_neg (Nat.ne_of_lt hprevlt), if_neg (Nat.ne_of_lt hcursorlt), List.getLast?_concat,
      List.head?_cons]
  · intro id hid
    simp only [linkPrev, linkNext, Array.getElem?_modify, getElem?_push_of_ne _ _ hid,
      List.getLast?_concat, List.head?_cons, Option.some.injEq]
    by_cases hcursor : stream.cursor = id
    · have hprev' : prev ≠ id := hcursor ▸ hne
      cases stream.slots[id]? <;> simp [hcursor, hprev']
    · by_cases hprev' : prev = id <;> cases stream.slots[id]? <;> simp [hcursor, hprev']

theorem insertBefore_split (h : stream.Sound) {pre post : List Entry}
    (hsplit : stream.toList = pre ++ entry :: post) (hpre : pre ≠ []) (instruction : Instruction) :
    ∃ grown, (stream.setCursor entry.id).insertBefore instruction = .ok (grown, stream.issued) ∧
      grown.toList = pre ++ ⟨stream.issued, instruction⟩ :: entry :: post ∧ grown.Sound := by
  obtain ⟨first, last, rfl⟩ : ∃ first last, pre = first ++ [last] :=
    ⟨_, _, (dropLast_append_getLast hpre).symm⟩
  have hids : stream.ids = first.map (·.id) ++ last.id :: entry.id :: post.map (·.id) := by
    rw [ids, hsplit]
    simp
  have hcursor := Threads.setCursor h entry.id
  rw [hids] at hcursor
  obtain ⟨grown, hok, hinserts⟩ := hcursor.insertBefore instruction
  have hinserts' : (stream.setCursor entry.id).Inserts grown ((first ++ [last]).map (·.id))
      ((entry :: post).map (·.id)) instruction := by
    rw [map_append]
    exact hinserts
  exact ⟨grown, hok, hinserts'.toList (h.setCursor entry.id) hsplit hpre⟩

/-! ### Taking an instruction out -/

theorem getElem?_unlink (stream : Stream) (target : Nat) (next : Option Nat) (id : Nat) :
    (stream.unlink target next).slots[id]? = stream.slots[id]?.map fun slot =>
      if id = target then { slot with prev := none, next := none }
      else { slot with
        prev := if next = some id then some stream.cursor else slot.prev
        next := if stream.cursor = id then next else slot.next } := by
  unfold unlink linkNext linkPrev
  cases next with
  | none =>
    simp only [Array.getElem?_modify, reduceCtorEq, if_false]
    by_cases htarget : target = id
    · by_cases hcursor : stream.cursor = id <;> cases stream.slots[id]? <;> simp [htarget, hcursor]
    · by_cases hcursor : stream.cursor = id <;> cases stream.slots[id]? <;>
        simp [htarget, Ne.symm htarget, hcursor]
  | some next =>
    simp only [Array.getElem?_modify, Option.some.injEq]
    by_cases htarget : target = id
    · by_cases hcursor : stream.cursor = id <;> by_cases hnext : next = id <;>
        cases stream.slots[id]? <;> simp [htarget, hcursor, hnext]
    · by_cases hcursor : stream.cursor = id <;> by_cases hnext : next = id <;>
        cases stream.slots[id]? <;> simp [htarget, Ne.symm htarget, hcursor, hnext]

theorem issued_unlink (stream : Stream) (target : Nat) (next : Option Nat) :
    (stream.unlink target next).issued = stream.issued := by
  unfold unlink linkNext linkPrev issued
  cases next <;> simp

/-- **The order without a number that is not the first.** -/
theorem Threads.unlink {target : Nat} (h : stream.Threads (pre ++ target :: post))
    (hcursor : pre.getLast? = some stream.cursor) :
    (stream.unlink target post.head?).Threads (pre ++ post) := by
  have hnodup := h.nodup
  obtain ⟨htarget, hnodup'⟩ := nodup_cons.1 (nodup_middle.1 hnodup)
  obtain ⟨first, rfl⟩ : ∃ first, pre = first ++ [stream.cursor] := List.getLast?_eq_some_iff.1 hcursor
  refine ⟨hnodup', ?_, ?_, ?_, ?_, ?_⟩
  · cases first <;> exact h.first
  · have hlast := h.last
    cases post with
    | nil => rw [append_nil, hcursor]; rfl
    | cons b post =>
      rw [List.getLast?_append, List.getLast?_cons_cons] at hlast
      rw [List.getLast?_append, hlast]
      simp [Stream.unlink]
  · have hlength := h.length
    rw [length_append, length_cons] at hlength
    rw [length_append]
    show stream.length - 1 = _
    omega
  · intro id hid
    rw [issued_unlink]
    exact h.bounded id (perm_middle.symm.subset (mem_cons_of_mem _ hid))
  · intro id slot hslot
    rw [getElem?_unlink] at hslot
    obtain ⟨old, hold, rfl⟩ := Option.map_eq_some_iff.1 hslot
    by_cases hid : id = target
    · subst hid
      rw [if_pos rfl, after_of_notMem htarget, after_of_notMem (mt mem_reverse.1 htarget)]
      exact ⟨rfl, rfl⟩
    · obtain ⟨hnext, hprev⟩ := h.links id old hold
      rw [after_insert hnodup, if_neg hid] at hnext
      rw [after_reverse_insert hnodup, if_neg hid] at hprev
      rw [if_neg hid]
      constructor
      · by_cases heq : stream.cursor = id
        · have hfirst : id ∉ first := by
            rw [append_assoc, heq] at hnodup
            exact fun hmem => (nodup_append.1 hnodup).2.2 id hmem id mem_cons_self rfl
          rw [if_pos heq, append_assoc, singleton_append, heq, after_append_of_notMem hfirst]
        · rw [if_neg heq, hnext, List.getLast?_concat, if_neg (fun h => heq (Option.some.inj h))]
      · by_cases heq : post.head? = some id
        · obtain ⟨rest, rfl⟩ := List.head?_eq_some_iff.1 heq
          have hrest : id ∉ rest.reverse := fun hmem =>
            (nodup_cons.1 (nodup_append.1 hnodup').2.1).1 (mem_reverse.1 hmem)
          have hreverse : (first ++ [stream.cursor] ++ id :: rest).reverse =
              rest.reverse ++ id :: stream.cursor :: first.reverse := by simp
          rw [if_pos heq, hreverse, after_append_of_notMem hrest]
          rfl
        · rw [if_neg heq, hprev, if_neg heq]

theorem Threads.deleteAfter {target : Nat} (h : stream.Threads (pre ++ stream.cursor :: target :: post)) :
    ∃ slot, stream.slots[target]? = some slot ∧
      stream.deleteAfter = .ok (stream.unlink target post.head?, slot.instruction) := by
  have htarget : target < stream.slots.size := h.bounded target (by simp)
  have hsplit : stream.Threads ((pre ++ [stream.cursor]) ++ target :: post) := by
    rwa [append_assoc]
  have hnext : stream.slots[target].next = post.head? := by
    have hlink := hsplit.next?_split
    rwa [next?, Array.getElem?_eq_getElem htarget] at hlink
  refine ⟨stream.slots[target], Array.getElem?_eq_getElem htarget, ?_⟩
  unfold Stream.deleteAfter
  rw [h.next?_split, List.head?_cons, Option.bind_some, Array.getElem?_eq_getElem htarget, ← hnext]
  rfl

theorem deleteAfter_split (h : stream.Sound) {pre post : List Entry} {gone : Entry}
    (hsplit : stream.toList = pre ++ entry :: gone :: post) :
    ∃ left, (stream.setCursor entry.id).deleteAfter = .ok (left, gone.instruction) ∧
      left.toList = pre ++ entry :: post ∧ left.Sound := by
  have hids : stream.ids = pre.map (·.id) ++ entry.id :: gone.id :: post.map (·.id) := by
    rw [ids, hsplit, map_append, map_cons, map_cons]
  have hthreads := (h.threads hids).setCursor entry.id
  obtain ⟨slot, hslot, hok⟩ := Threads.deleteAfter hthreads
  have hgone : slot.instruction = gone.instruction := by
    have hentry : stream.lookup? gone.id = some gone := h.lookup?_of_mem (hsplit ▸ by simp)
    have hslot' : stream.lookup? gone.id = some ⟨gone.id, slot.instruction⟩ := by
      rw [lookup?, show stream.slots[gone.id]? = some slot from hslot, Option.map_some]
    exact congrArg Entry.instruction (Option.some.inj (hslot'.symm.trans hentry))
  refine ⟨_, hgone ▸ hok, ?_⟩
  have hleft : ((stream.setCursor entry.id).unlink gone.id (post.map (·.id)).head?).Threads
      ((pre ++ entry :: post).map (·.id)) := by
    rw [map_append, map_cons, ← singleton_append, ← append_assoc]
    refine Threads.unlink ?_ (List.getLast?_concat ..)
    rwa [append_assoc]
  refine ⟨?_, hleft.sound⟩
  rw [hleft.toList_eq]
  refine h.filterMap_lookup? ?_ ?_
  · intro id _
    rw [lookup?, lookup?, getElem?_unlink, Option.map_map]
    exact congrFun (congrArg Option.map (funext fun slot => by
      simp only [Function.comp_apply]
      split <;> rfl)) _
  · rw [hsplit]
    exact (((sublist_cons_self gone post).cons_cons entry).append_left pre).subset

/-! ### Looking around -/

theorem findBackward?_eq_some (hsound : stream.Sound) {test : Entry → Bool}
    (h : stream.findBackward? test = some id) :
    ∃ pre entry post, stream.toList = pre ++ entry :: post ∧ entry.id = id ∧ test entry ∧
      ∀ e ∈ post, test e = false := by
  rw [findBackward?, hsound.backward_eq] at h
  obtain ⟨entry, hfind, hid⟩ := Option.map_eq_some_iff.1 h
  obtain ⟨htest, later, earlier, hlist, hlater⟩ := List.find?_eq_some_iff_append.1 hfind
  refine ⟨earlier.reverse, entry, later.reverse, ?_, hid, htest, ?_⟩
  · rw [← reverse_reverse stream.toList, hlist]
    simp
  · intro e he
    simpa using hlater e (mem_reverse.1 he)

theorem exists_findBackward? (h : stream.Sound) {test : Entry → Bool} (hmem : entry ∈ stream.toList)
    (htest : test entry = true) : ∃ id, stream.findBackward? test = some id := by
  have hsome : (stream.backward.find? test).isSome := by
    rw [h.backward_eq]
    exact List.find?_isSome.2 ⟨entry, mem_reverse.2 hmem, htest⟩
  obtain ⟨found, hfound⟩ := Option.isSome_iff_exists.1 hsome
  exact ⟨found.id, by rw [findBackward?, hfound]; rfl⟩

theorem get?_of_mem (h : stream.Sound) (hmem : entry ∈ stream.toList) :
    stream.get? entry.id = some entry.instruction := by
  obtain ⟨slot, hslot, hentry⟩ := Option.map_eq_some_iff.1 (h.lookup?_of_mem hmem)
  rw [get?, hslot, Option.map_some, ← hentry]

theorem next?_split (h : stream.Sound) {pre post : List Entry}
    (hsplit : stream.toList = pre ++ entry :: post) :
    (stream.next? entry.id).bind stream.get? = post.head?.map (·.instruction) := by
  have hids : stream.ids = pre.map (·.id) ++ entry.id :: post.map (·.id) := by
    rw [ids, hsplit, map_append, map_cons]
  rw [(h.threads hids).next?_split]
  cases post with
  | nil => rfl
  | cons next post => exact get?_of_mem h (hsplit ▸ by simp)

theorem Threads.walk_split (h : stream.Threads (pre ++ id :: post)) :
    (walk stream.slots Slot.next stream.issued (some id)).map (·.id) = id :: post := by
  have hbounded : ∀ x ∈ id :: post, x < stream.issued :=
    fun x hx => h.bounded x (mem_append_right pre hx)
  have hlength : (id :: post).length ≤ stream.issued := by
    have hle := h.length_le
    rw [length_append] at hle
    omega
  have hwalk := walk_eq h.nodup h.bounded (fun id slot hslot => (h.links id slot hslot).1)
    (id :: post) pre stream.issued rfl hlength
  rw [List.head?_cons] at hwalk
  rw [hwalk, map_id_filterMap_lookup? hbounded]

/-! ### Changing instructions in place -/

theorem takeThrough_of_mem {inner rest : List Nat} (h : last ∉ inner) :
    takeThrough last (inner ++ last :: rest) = inner ++ [last] := by
  induction inner with
  | nil => rw [nil_append, takeThrough, if_pos rfl, nil_append]
  | cons id inner ih =>
    obtain ⟨hid, hinner⟩ := not_or.1 (mem_cons.not.1 h)
    rw [cons_append, takeThrough, if_neg (Ne.symm hid), ih hinner, cons_append]

/-- A piece of code goes from one number to another. -/
structure Spans (piece : List Entry) (first last : Nat) : Prop where
  first : piece.head?.map (·.id) = some first
  last : piece.getLast?.map (·.id) = some last

theorem range_eq (h : stream.Sound) {pre piece post : List Entry} {first : Nat}
    (hsplit : stream.toList = pre ++ (piece ++ post)) (hspans : Spans piece first last) :
    stream.range first last = piece.map (·.id) := by
  obtain ⟨entry, hentry, rfl⟩ := Option.map_eq_some_iff.1 hspans.first
  obtain ⟨final, hfinal, rfl⟩ := Option.map_eq_some_iff.1 hspans.last
  obtain ⟨rest, rfl⟩ := List.head?_eq_some_iff.1 hentry
  obtain ⟨inner, hinner⟩ := List.getLast?_eq_some_iff.1 hfinal
  have hids : stream.ids = pre.map (·.id) ++ entry.id :: (rest ++ post).map (·.id) := by
    rw [ids, hsplit, map_append, cons_append, map_cons]
  have hthreads := h.threads hids
  have hwalk : entry.id :: (rest ++ post).map (·.id) = inner.map (·.id) ++ final.id :: post.map (·.id) := by
    rw [← map_cons, ← cons_append, hinner]
    simp
  have hnodup := (nodup_append.1 hthreads.nodup).2.1
  rw [hwalk] at hnodup
  rw [range, hthreads.walk_split, hwalk, takeThrough_of_mem, hinner, map_append]
  · rfl
  · exact fun hmem => (nodup_append.1 hnodup).2.2 _ hmem _ mem_cons_self rfl

/-- An entry after a change of the instructions under some numbers. -/
def changed (ids : List Nat) (change : Instruction → Instruction) (entry : Entry) : Entry :=
  if ids.contains entry.id then { entry with instruction := change entry.instruction } else entry

theorem changed_of_mem {ids : List Nat} {change : Instruction → Instruction} (h : entry.id ∈ ids) :
    changed ids change entry = ⟨entry.id, change entry.instruction⟩ :=
  if_pos (contains_iff_mem.2 h)

theorem changed_of_notMem {ids : List Nat} {change : Instruction → Instruction} (h : entry.id ∉ ids) :
    changed ids change entry = entry :=
  if_neg fun hmem => h (contains_iff_mem.1 hmem)

@[simp] theorem changed_id (ids : List Nat) (change : Instruction → Instruction) (entry : Entry) :
    (changed ids change entry).id = entry.id := by
  unfold changed
  split <;> rfl

theorem getElem?_modify (stream : Stream) (ids : List Nat) (change : Instruction → Instruction)
    (id : Nat) : (stream.modify ids change).slots[id]? = stream.slots[id]?.map fun slot =>
      if ids.contains id then { slot with instruction := change slot.instruction } else slot := by
  unfold modify
  rw [Array.getElem?_mapIdx]

theorem issued_modify (stream : Stream) (ids : List Nat) (change : Instruction → Instruction) :
    (stream.modify ids change).issued = stream.issued := by
  unfold modify issued
  rw [Array.size_mapIdx]

theorem walk_modify (stream : Stream) (ids : List Nat) (change : Instruction → Instruction)
    {link : Slot → Option Nat} (hlink : ∀ slot instruction, link { slot with instruction } = link slot)
    (fuel : Nat) (id : Option Nat) :
    walk (stream.modify ids change).slots link fuel id =
      (walk stream.slots link fuel id).map (changed ids change) := by
  induction fuel generalizing id with
  | zero => rfl
  | succ fuel ih =>
    cases id with
    | none => rfl
    | some id =>
      rw [walk, walk, getElem?_modify]
      cases stream.slots[id]? with
      | none => rfl
      | some slot =>
        simp only [Option.map_some, map_cons, changed, ih]
        by_cases hid : ids.contains id = true
        · simp only [if_pos hid, hlink]
        · simp only [if_neg hid]

theorem toList_modify (stream : Stream) (ids : List Nat) (change : Instruction → Instruction) :
    (stream.modify ids change).toList = stream.toList.map (changed ids change) := by
  rw [toList, toList, issued_modify]
  exact walk_modify stream ids change (fun _ _ => rfl) _ _

theorem Sound.modify (h : stream.Sound) (ids : List Nat) (change : Instruction → Instruction) :
    (stream.modify ids change).Sound := by
  have hthreads : (stream.modify ids change).Threads stream.ids := by
    refine ⟨h.nodup, h.first, h.last, h.length, ?_, ?_⟩
    · rw [issued_modify]
      exact Threads.bounded h
    · intro id slot hslot
      rw [getElem?_modify] at hslot
      obtain ⟨old, hold, rfl⟩ := Option.map_eq_some_iff.1 hslot
      have hlinks := h.links id old hold
      split <;> exact hlinks
  exact hthreads.sound

theorem toList_modify_range (h : stream.Sound) {pre piece post : List Entry} {first : Nat}
    (hsplit : stream.toList = pre ++ (piece ++ post)) (hspans : Spans piece first last)
    (change : Instruction → Instruction) :
    (stream.modify (stream.range first last) change).toList =
      pre ++ (piece.map (fun entry => ⟨entry.id, change entry.instruction⟩) ++ post) := by
  have hnodup := h.nodup
  rw [ids, hsplit, map_append, map_append, nodup_append, nodup_append] at hnodup
  have hkept : ∀ entries : List Entry, (∀ entry ∈ entries, entry.id ∉ piece.map (·.id)) →
      entries.map (changed (piece.map (·.id)) change) = entries := fun entries hentries =>
    (map_congr_left fun entry hentry => changed_of_notMem (hentries entry hentry)).trans
      (map_id entries)
  rw [toList_modify, range_eq h hsplit hspans, hsplit, map_append, map_append]
  rw [hkept pre, hkept post, map_congr_left fun entry hentry =>
    changed_of_mem (mem_map_of_mem hentry)]
  · exact fun entry hentry hmem =>
      hnodup.2.1.2.2 _ hmem _ (mem_map_of_mem hentry) rfl
  · exact fun entry hentry hmem =>
      hnodup.2.2 _ (mem_map_of_mem hentry) _ (mem_append_left _ hmem) rfl

end OnePass.Stream
