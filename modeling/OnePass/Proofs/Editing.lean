import OnePass.Proofs.Stream
import Mathlib.Data.List.TakeWhile

/-!
# Streams as edited lists

A stream is edited at its end and at its cursor, through links that lead there and back.  Whatever the
edits are, the links keep to the list that the same edits make of a plain list of instructions.

Main results:

* `Stream.Follows.edit`, `Stream.follows_edited` — a stream keeps to its plan, edit by edit;
* `Stream.get?_edited` — a number keeps its instruction, also when it is removed;
* `Stream.edited_realizes` — **after any edits a stream is the list that its plan says**.
-/

namespace OnePass

open List

/-! ### Edits -/

inductive Edit where
  | append (instruction : Instruction)
  | setCursor (id : Nat)
  | insertBefore (instruction : Instruction)
  | deleteAfter

namespace Stream

/-- A stream after an edit.  An edit that fails leaves the stream as it is.  The cursor can be set to
every number that has been given out, and to no other. -/
def edit (stream : Stream) : Edit → Stream
  | .append instruction => (stream.append instruction).1
  | .setCursor id => if id < stream.issued then stream.setCursor id else stream
  | .insertBefore instruction =>
      match stream.insertBefore instruction with
      | .ok (grown, _) => grown
      | .error _ => stream
  | .deleteAfter =>
      match stream.deleteAfter with
      | .ok (left, _) => left
      | .error _ => stream

/-- A stream after some edits. -/
def edited (stream : Stream) (edits : List Edit) : Stream := edits.foldl edit stream

end Stream

/-- A list of instructions with a cursor. -/
structure Plan where
  entries : List Entry
  issued : Nat
  cursor : Nat

namespace Plan

def start : Plan :=
  { entries := [⟨0, { kind := .programStart, scope := 0, frame := .global }⟩], issued := 1, cursor := 0 }

def ids (plan : Plan) : List Nat := plan.entries.map (·.id)

/-- The instructions before the cursor. -/
def left (plan : Plan) : List Entry := plan.entries.takeWhile (·.id != plan.cursor)

/-- The instructions from the cursor on. -/
def right (plan : Plan) : List Entry := plan.entries.dropWhile (·.id != plan.cursor)

/-- A list after an edit.  Nothing is put before the sentinel, nothing is taken out after the last
instruction, and a cursor that is not in the list cannot be used. -/
def edit (plan : Plan) : Edit → Plan
  | .append instruction =>
      { plan with entries := plan.entries ++ [⟨plan.issued, instruction⟩], issued := plan.issued + 1 }
  | .setCursor id => if id < plan.issued then { plan with cursor := id } else plan
  | .insertBefore instruction =>
      if plan.cursor = 0 ∨ plan.cursor ∉ plan.ids then plan
      else { plan with
        entries := plan.left ++ ⟨plan.issued, instruction⟩ :: plan.right
        issued := plan.issued + 1 }
  | .deleteAfter =>
      if plan.ids.getLast? = some plan.cursor ∨ plan.cursor ∉ plan.ids then plan
      else { plan with entries := plan.left ++ (plan.right.take 1 ++ plan.right.drop 2) }

/-- A list after some edits. -/
def edited (plan : Plan) (edits : List Edit) : Plan := edits.foldl edit plan

theorem split_of_mem {plan : Plan} (h : plan.cursor ∈ plan.ids) :
    ∃ entry later, entry.id = plan.cursor ∧ plan.right = entry :: later ∧
      plan.entries = plan.left ++ entry :: later := by
  obtain ⟨found, hfound, hid⟩ := mem_map.1 h
  have hne : plan.right ≠ [] := by
    intro hnil
    have hall := dropWhile_eq_nil_iff.1 hnil found hfound
    simp [hid] at hall
  obtain ⟨entry, later, hright⟩ := exists_cons_of_ne_nil hne
  refine ⟨entry, later, ?_, hright, ?_⟩
  · have hhead := List.head?_dropWhile_not (·.id != plan.cursor) plan.entries
    rw [← right, hright] at hhead
    simpa using hhead
  · rw [← hright, left, right, takeWhile_append_dropWhile]

end Plan

/-! ### What can be seen of a stream -/

/-- The numbers that a link leads through from a number on, until it leads nowhere. -/
inductive Trail (link : Nat → Option Nat) : Nat → List Nat → Prop where
  | last {id : Nat} (h : link id = none) : Trail link id [id]
  | more {id next : Nat} {rest : List Nat} (h : link id = some next) (hrest : Trail link next rest) :
      Trail link id (id :: rest)

/-- What can be seen of a stream is what its plan says. -/
structure Stream.Realizes (stream : Stream) (plan : Plan) : Prop where
  /-- the links lead from the sentinel to the end through the numbers of the plan -/
  forward : Trail stream.next? 0 plan.ids
  /-- they lead back from the end in the opposite order -/
  backward : Trail stream.prev? stream.tail plan.ids.reverse
  nodup : plan.ids.Nodup
  last : plan.ids.getLast? = some stream.tail
  length : stream.length = plan.ids.length
  toList : stream.toList = plan.entries
  cursor : stream.cursor = plan.cursor
  /-- a new number is larger than all others -/
  fresh : stream.issued = plan.issued ∧ ∀ id ∈ plan.ids, id < plan.issued
  append : ∀ instruction, (stream.append instruction).2 = plan.issued
  insert : ∀ instruction, if plan.cursor = 0 ∨ plan.cursor ∉ plan.ids then
      stream.insertBefore instruction = .error { fault := .insertBeforeStart }
    else ∃ grown, stream.insertBefore instruction = .ok (grown, plan.issued)
  delete : if plan.ids.getLast? = some plan.cursor ∨ plan.cursor ∉ plan.ids then
      stream.deleteAfter = .error { fault := .nothingToDelete }
    else ∃ left gone, stream.deleteAfter = .ok (left, gone) ∧
      (plan.right.drop 1).head?.map (·.instruction) = some gone
  find : ∀ test, stream.findBackward? test = (plan.entries.filter test).getLast?.map (·.id)
  range : ∀ pre first post, plan.ids = pre ++ first :: post →
    (∀ inner last rest, first :: post = inner ++ last :: rest → stream.range first last = inner ++ [last]) ∧
    ∀ last, last ∉ first :: post → stream.range first last = first :: post

namespace Stream

/-! ### Following a plan -/

/-- The links of a stream lead through the instructions of a plan. -/
structure Follows (stream : Stream) (plan : Plan) : Prop where
  sound : stream.Sound
  toList : stream.toList = plan.entries
  issued : stream.issued = plan.issued
  cursor : stream.cursor = plan.cursor

theorem follows_start : start.Follows Plan.start := ⟨start_sound, rfl, rfl, rfl⟩

variable {stream : Stream} {plan : Plan}
variable {order : List Nat}

theorem Follows.ids (h : stream.Follows plan) : stream.ids = plan.ids := by
  rw [Stream.ids, h.toList, Plan.ids]

theorem Follows.threads (h : stream.Follows plan) : stream.Threads plan.ids := h.sound.threads h.ids

theorem Follows.left_ne_nil (h : stream.Follows plan) {entry : Entry} {later : List Entry}
    (hid : entry.id = plan.cursor) (hsplit : plan.entries = plan.left ++ entry :: later)
    (hcursor : plan.cursor ≠ 0) : plan.left ≠ [] := by
  intro hnil
  have hfirst := h.threads.first
  rw [Plan.ids, hsplit, hnil, nil_append, map_cons, List.head?_cons, hid] at hfirst
  exact hcursor (Option.some.inj hfirst)

theorem insertBefore_frame {grown : Stream} {instruction : Instruction} {id : Nat}
    (h : stream.insertBefore instruction = .ok (grown, id)) :
    grown.issued = stream.issued + 1 ∧ grown.cursor = stream.cursor := by
  unfold Stream.insertBefore at h
  split at h
  · cases h
    simp [issued, linkNext, linkPrev]
  · cases h

theorem deleteAfter_frame {left : Stream} {gone : Instruction} (h : stream.deleteAfter = .ok (left, gone)) :
    left.issued = stream.issued ∧ left.cursor = stream.cursor := by
  unfold Stream.deleteAfter at h
  split at h
  · cases h
    exact ⟨issued_unlink .., rfl⟩
  · cases h

/-- **An insertion fails exactly at the sentinel and at a number that is not linked.** -/
theorem Follows.insertBefore (h : stream.Follows plan) (instruction : Instruction) :
    if plan.cursor = 0 ∨ plan.cursor ∉ plan.ids then
      stream.insertBefore instruction = .error { fault := .insertBeforeStart }
    else ∃ grown, stream.insertBefore instruction = .ok (grown, plan.issued) ∧
      grown.Follows (plan.edit (.insertBefore instruction)) := by
  split
  · rename_i hcursor
    have hprev : stream.prev? stream.cursor = none := by
      rw [h.cursor]
      by_cases hmem : plan.cursor ∈ plan.ids
      · obtain ⟨rest, hrest⟩ := List.head?_eq_some_iff.1 h.threads.first
        have hzero : plan.cursor = 0 := hcursor.resolve_right (not_not.2 hmem)
        have hthreads : stream.Threads ([] ++ 0 :: rest) := hrest ▸ h.threads
        rw [hzero, hthreads.prev?_split]
        rfl
      · exact (h.threads.isolated hmem).2
    rw [Stream.insertBefore, hprev]
  · rename_i hcursor
    obtain ⟨hzero, hmem⟩ := not_or.1 hcursor
    obtain ⟨entry, later, hid, hright, hsplit⟩ := Plan.split_of_mem (not_not.1 hmem)
    obtain ⟨grown, hok, hlist, hsound⟩ := insertBefore_split h.sound (h.toList.trans hsplit)
      (h.left_ne_nil hid hsplit hzero) instruction
    have hsame : stream.setCursor entry.id = stream := by rw [hid, ← h.cursor]; rfl
    rw [hsame, h.issued] at hok
    obtain ⟨hissued, hcursor'⟩ := insertBefore_frame hok
    rw [Plan.edit, if_neg hcursor]
    refine ⟨grown, hok, hsound, ?_, ?_, ?_⟩
    · rw [hlist, hright, h.issued]
    · rw [hissued, h.issued]
    · rw [hcursor', h.cursor]

/-- **A deletion fails exactly at the last instruction and at a number that is not linked.** -/
theorem Follows.deleteAfter (h : stream.Follows plan) :
    if plan.ids.getLast? = some plan.cursor ∨ plan.cursor ∉ plan.ids then
      stream.deleteAfter = .error { fault := .nothingToDelete }
    else ∃ left gone, stream.deleteAfter = .ok (left, gone) ∧
      (plan.right.drop 1).head?.map (·.instruction) = some gone ∧
        left.Follows (plan.edit .deleteAfter) := by
  split
  · rename_i hcursor
    have hnext : stream.next? stream.cursor = none := by
      rw [h.cursor]
      by_cases hmem : plan.cursor ∈ plan.ids
      · have hlast := hcursor.resolve_right (not_not.2 hmem)
        obtain ⟨rest, hrest⟩ := List.getLast?_eq_some_iff.1 hlast
        have hthreads : stream.Threads (rest ++ plan.cursor :: []) := hrest ▸ h.threads
        rw [hthreads.next?_split]
        rfl
      · exact (h.threads.isolated hmem).1
    rw [Stream.deleteAfter, hnext]
    rfl
  · rename_i hcursor
    obtain ⟨hlast, hmem⟩ := not_or.1 hcursor
    obtain ⟨entry, later, hid, hright, hsplit⟩ := Plan.split_of_mem (not_not.1 hmem)
    have hlater : later ≠ [] := by
      rintro rfl
      rw [Plan.ids, hsplit, map_append, map_singleton, List.getLast?_concat, hid] at hlast
      exact hlast rfl
    obtain ⟨gone, rest, rfl⟩ := exists_cons_of_ne_nil hlater
    obtain ⟨left, hok, hlist, hsound⟩ := deleteAfter_split h.sound (h.toList.trans hsplit)
    have hsame : stream.setCursor entry.id = stream := by rw [hid, ← h.cursor]; rfl
    rw [hsame] at hok
    obtain ⟨hissued, hcursor'⟩ := deleteAfter_frame hok
    rw [Plan.edit, if_neg hcursor, hright]
    refine ⟨left, gone.instruction, hok, rfl, hsound, hlist, ?_, ?_⟩
    · rw [hissued, h.issued]
    · rw [hcursor', h.cursor]

/-- **One edit keeps a stream to its plan.** -/
theorem Follows.edit (h : stream.Follows plan) (edit : Edit) :
    (stream.edit edit).Follows (plan.edit edit) := by
  cases edit with
  | append instruction =>
    refine ⟨h.sound.append instruction, ?_, ?_, h.cursor⟩
    · rw [Stream.edit, toList_append h.sound, h.toList, h.issued]
      rfl
    · rw [Stream.edit, issued_append, h.issued]
      rfl
  | setCursor id =>
    rw [Stream.edit, Plan.edit, h.issued]
    split
    · exact ⟨h.sound.setCursor id, h.toList, h.issued, rfl⟩
    · exact h
  | insertBefore instruction =>
    have hinsert := h.insertBefore instruction
    split at hinsert
    · rename_i hcursor
      rw [Stream.edit, hinsert, Plan.edit, if_pos hcursor]
      exact h
    · obtain ⟨grown, hok, hgrown⟩ := hinsert
      rw [Stream.edit, hok]
      exact hgrown
  | deleteAfter =>
    have hdelete := h.deleteAfter
    split at hdelete
    · rename_i hcursor
      rw [Stream.edit, hdelete, Plan.edit, if_pos hcursor]
      exact h
    · obtain ⟨left, gone, hok, -, hleft⟩ := hdelete
      rw [Stream.edit, hok]
      exact hleft

theorem Follows.edited (h : stream.Follows plan) (edits : List Edit) :
    (stream.edited edits).Follows (plan.edited edits) := by
  induction edits generalizing stream plan with
  | nil => exact h
  | cons edit edits ih => exact ih (h.edit edit)

/-! ### Numbers are never used again -/

theorem getElem?_linkNext (slots : Array Slot) (target : Nat) (next : Option Nat) (id : Nat) :
    ((linkNext slots target next)[id]?).map (·.instruction) = slots[id]?.map (·.instruction) := by
  rw [linkNext, Array.getElem?_modify]
  split <;> cases slots[id]? <;> rfl

theorem getElem?_linkPrev (slots : Array Slot) (target : Nat) (prev : Option Nat) (id : Nat) :
    ((linkPrev slots target prev)[id]?).map (·.instruction) = slots[id]?.map (·.instruction) := by
  rw [linkPrev, Array.getElem?_modify]
  split <;> cases slots[id]? <;> rfl

theorem get?_edit (stream : Stream) (edit : Edit) : stream.issued ≤ (stream.edit edit).issued ∧
      ∀ id < stream.issued, (stream.edit edit).get? id = stream.get? id := by
  have hpush : ∀ (new : Slot) (id : Nat), id < stream.issued →
      ((stream.slots.push new)[id]?).map (·.instruction) = stream.get? id := by
    intro new id hid
    rw [getElem?_push_of_ne stream.slots new (Nat.ne_of_lt hid), get?]
  cases edit with
  | append instruction =>
    refine ⟨by simp [Stream.edit], ?_⟩
    intro id hid
    rw [← hpush ⟨instruction, some stream.tail, none⟩ id hid]
    exact getElem?_linkNext ..
  | setCursor id =>
    rw [Stream.edit]
    split <;> exact ⟨Nat.le_refl _, fun _ _ => rfl⟩
  | insertBefore instruction =>
    rw [Stream.edit]
    split
    · rename_i grown new hok
      refine ⟨by rw [(insertBefore_frame hok).1]; omega, ?_⟩
      intro id hid
      unfold Stream.insertBefore at hok
      split at hok
      · rename_i prev _
        cases hok
        rw [← hpush ⟨instruction, some prev, some stream.cursor⟩ id hid]
        exact (getElem?_linkPrev ..).trans (getElem?_linkNext ..)
      · cases hok
    · exact ⟨Nat.le_refl _, fun _ _ => rfl⟩
  | deleteAfter =>
    rw [Stream.edit]
    split
    · rename_i left gone hok
      refine ⟨by rw [(deleteAfter_frame hok).1], ?_⟩
      intro id _
      unfold Stream.deleteAfter at hok
      split at hok
      · cases hok
        rw [get?, get?, getElem?_unlink]
        cases stream.slots[id]? with
        | none => rfl
        | some slot =>
          rw [Option.map_some, Option.map_some]
          split <;> rfl
      · cases hok
    · exact ⟨Nat.le_refl _, fun _ _ => rfl⟩

/-- **A number keeps its instruction**, whatever the edits are. -/
theorem get?_edited (edits : List Edit) {id : Nat} (h : id < stream.issued) :
    (stream.edited edits).get? id = stream.get? id := by
  induction edits generalizing stream with
  | nil => rfl
  | cons edit edits ih =>
    obtain ⟨hissued, hget⟩ := get?_edit stream edit
    exact (ih (Nat.lt_of_lt_of_le h hissued)).trans (hget id h)

/-! ### Walking and searching -/

/-- A link that goes from each number of a list to the next one has the list as its trail. -/
theorem trail_of_links {link : Nat → Option Nat}
    (h : ∀ pre id post, order = pre ++ id :: post → link id = post.head?) :
    ∀ post pre id, order = pre ++ id :: post → Trail link id (id :: post) := by
  intro post
  induction post with
  | nil =>
    intro pre id horder
    exact .last (h pre id [] horder)
  | cons next post ih =>
    intro pre id horder
    refine .more (h pre id (next :: post) horder) (ih (pre ++ [id]) next ?_)
    rw [horder, append_assoc]
    rfl

theorem Threads.trail_next (h : stream.Threads order) : Trail stream.next? 0 order := by
  obtain ⟨rest, rfl⟩ := List.head?_eq_some_iff.1 h.first
  refine trail_of_links ?_ rest [] 0 rfl
  intro pre id post horder
  exact (horder ▸ h : stream.Threads (pre ++ id :: post)).next?_split

theorem Threads.trail_prev (h : stream.Threads order) : Trail stream.prev? stream.tail order.reverse := by
  obtain ⟨rest, rfl⟩ := List.getLast?_eq_some_iff.1 h.last
  have hreverse : (rest ++ [stream.tail]).reverse = stream.tail :: rest.reverse := by simp
  rw [hreverse]
  refine trail_of_links ?_ rest.reverse [] stream.tail rfl
  intro pre id post horder
  have hthreads : stream.Threads (post.reverse ++ id :: pre.reverse) := by
    have horder' : rest ++ [stream.tail] = post.reverse ++ id :: pre.reverse := by
      rw [← reverse_reverse (rest ++ [stream.tail]), hreverse, ← nil_append (_ :: _), horder]
      simp
    exact horder' ▸ h
  rw [hthreads.prev?_split, List.getLast?_reverse]

theorem Sound.findBackward?_eq (h : stream.Sound) (test : Entry → Bool) :
    stream.findBackward? test = (stream.toList.filter test).getLast?.map (·.id) := by
  rw [findBackward?, h.backward_eq, ← List.head?_filter, filter_reverse, List.head?_reverse]

theorem takeThrough_of_notMem {last : Nat} {ids : List Nat} (h : last ∉ ids) :
    takeThrough last ids = ids := by
  induction ids with
  | nil => rfl
  | cons id ids ih =>
    obtain ⟨hid, hids⟩ := not_or.1 (mem_cons.not.1 h)
    rw [takeThrough, if_neg (Ne.symm hid), ih hids]

theorem Follows.realizes (h : stream.Follows plan) : stream.Realizes plan where
  forward := h.threads.trail_next
  backward := h.threads.trail_prev
  nodup := h.threads.nodup
  last := h.threads.last
  length := h.threads.length
  toList := h.toList
  cursor := h.cursor
  fresh := ⟨h.issued, h.issued ▸ h.threads.bounded⟩
  append _ := h.issued
  insert instruction := by
    have hinsert := h.insertBefore instruction
    split at hinsert
    · rwa [if_pos ‹_›]
    · rw [if_neg ‹_›]
      exact hinsert.imp fun _ hgrown => hgrown.1
  delete := by
    have hdelete := h.deleteAfter
    split at hdelete
    · rwa [if_pos ‹_›]
    · rw [if_neg ‹_›]
      exact hdelete.imp fun _ => Exists.imp fun _ hleft => ⟨hleft.1, hleft.2.1⟩
  find test := by rw [h.sound.findBackward?_eq, h.toList]
  range := by
    intro pre first post hids
    have hthreads : stream.Threads (pre ++ first :: post) := hids ▸ h.threads
    have hrange : ∀ last, stream.range first last = takeThrough last (first :: post) := by
      intro last
      unfold Stream.range
      rw [hthreads.walk_split]
    constructor
    · intro inner last rest hsplit
      have hnodup : (inner ++ last :: rest).Nodup :=
        hsplit ▸ (nodup_append.1 hthreads.nodup).2.1
      have hlast : last ∉ inner := fun hmem =>
        (nodup_append.1 hnodup).2.2 last hmem last mem_cons_self rfl
      rw [hrange, hsplit, takeThrough_of_mem hlast]
    · intro last hlast
      rw [hrange, takeThrough_of_notMem hlast]

/-- **After any edits a stream is the list that its plan says**, and the numbers given out so far keep
their instructions through all further edits. -/
theorem edited_realizes (edits : List Edit) : (start.edited edits).Realizes (Plan.start.edited edits) ∧
      ∀ more, ∀ id < (start.edited edits).issued,
        ((start.edited edits).edited more).get? id = (start.edited edits).get? id :=
  ⟨(follows_start.edited edits).realizes, fun more _ hid => get?_edited more hid⟩

/-- A cursor that is left on a removed number, with an instruction to put before it. -/
theorem edited_realizes_removed :
    let mark : Instruction := { kind := .discardResult, scope := 0, frame := .global }
    let edits : List Edit := [.append mark, .append mark, .setCursor 1, .deleteAfter, .setCursor 2]
    (Plan.start.edited edits).ids = [0, 1] ∧ (Plan.start.edited edits).cursor = 2 ∧
      (start.edited edits).Realizes (Plan.start.edited edits) ∧
      (start.edited edits).insertBefore mark = .error { fault := .insertBeforeStart } ∧
      ((start.edited edits).edited [.append mark]).get? 2 = (start.edited edits).get? 2 := by
  intro mark edits
  have hids : (Plan.start.edited edits).ids = [0, 1] := by decide
  have hcursor : (Plan.start.edited edits).cursor = 2 := by decide
  obtain ⟨hrealizes, hkept⟩ := edited_realizes edits
  refine ⟨hids, hcursor, hrealizes, ?_, hkept [.append mark] 2 (by decide)⟩
  have hinsert := hrealizes.insert mark
  rwa [if_pos (.inr (by rw [hids, hcursor]; decide))] at hinsert

end Stream

end OnePass
