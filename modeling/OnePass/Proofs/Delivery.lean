import OnePass.Proofs.Safety

/-!
# What sinks keep

Code is written to a sink piece by piece, and writing may end between any two pieces, or within one: when
the sink is full, or at an instruction that cannot be rendered.  How the code comes in pieces does not
matter.  A sink keeps the beginning of what it would keep if it had room for everything.

Main results:

* `Sink.writeAll_eq_write` — writing pieces is writing them all at once;
* `Sink.deliver_eq` — so delivering a listing is writing its text;
* `delivery_keeps_beginning` — **nothing is kept of a compilation that fails, and only the beginning of
  the code where a sink is full**.
-/

namespace OnePass

namespace Sink

variable {sink : Sink} {kept bytes : ByteArray} {limit : Nat}

/-! ### Pieces -/

theorem write_of_le (h : ∀ limit, sink.limit = some limit → bytes.size ≤ limit - kept.size) :
    sink.write kept bytes = ⟨kept ++ bytes, .ok ()⟩ := by
  obtain ⟨_ | limit, failure⟩ := sink
  · exact if_neg (Nat.lt_irrefl _)
  · exact if_neg (Nat.not_lt.2 (h limit rfl))

theorem write_of_lt (hlimit : sink.limit = some limit) (h : limit - kept.size < bytes.size) :
    sink.write kept bytes =
      ⟨kept ++ bytes.extract 0 (limit - kept.size), .error { fault := sink.overflow }⟩ := by
  unfold write
  rw [hlimit]
  exact if_pos h

theorem extract_of_size_le {n : Nat} (h : bytes.size ≤ n) : bytes.extract 0 n = bytes := by
  rw [ByteArray.extract_eq_extract_append_extract bytes.size (Nat.zero_le _) h, ByteArray.extract_zero_size,
    ByteArray.extract_eq_empty_iff.2 (Nat.min_le_right ..), ByteArray.append_empty]

theorem write_append (a b : ByteArray) : sink.write kept (a ++ b) = match (sink.write kept a).result with
    | .ok () => sink.write (sink.write kept a).kept b
    | .error _ => sink.write kept a := by
  cases hlimit : sink.limit with
  | none =>
    have hfits : ∀ (size : Nat) (kept : ByteArray) limit, sink.limit = some limit →
        size ≤ limit - kept.size := fun _ _ limit h => by cases hlimit.symm.trans h
    rw [write_of_le (hfits _ _), write_of_le (hfits _ _), write_of_le (hfits _ _), ByteArray.append_assoc]
  | some limit =>
    have hsome : ∀ {size room : Nat}, size ≤ limit - room → ∀ limit', sink.limit = some limit' →
        size ≤ limit' - room := fun h limit' h' => by cases hlimit.symm.trans h'; exact h
    have hsize := ByteArray.size_append (a := a) (b := b)
    rcases Nat.lt_or_ge (limit - kept.size) a.size with hcut | hfits
    · -- the first part is cut, and nothing of the second one is reached
      have hnone : limit - kept.size - a.size = 0 := by omega
      rw [write_of_lt hlimit hcut, write_of_lt hlimit (by omega), ByteArray.extract_append, hnone,
        Nat.zero_sub, ByteArray.extract_same, ByteArray.append_empty]
    · have hkept : limit - (kept ++ a).size = limit - kept.size - a.size := by
        rw [ByteArray.size_append]
        omega
      rw [write_of_le (hsome hfits)]
      dsimp only
      rcases Nat.lt_or_ge (limit - kept.size) (a ++ b).size with hcut | hboth
      · rw [write_of_lt hlimit hcut, write_of_lt hlimit (by omega), hkept, ByteArray.extract_append,
          extract_of_size_le hfits, Nat.zero_sub, ByteArray.append_assoc]
      · rw [write_of_le (hsome hboth), write_of_le (hsome (by omega)), ByteArray.append_assoc]

theorem writeAll_eq_write (pieces : List ByteArray) :
    sink.writeAll kept pieces = sink.write kept (pieces.foldr (· ++ ·) .empty) := by
  induction pieces generalizing kept with
  | nil => rw [List.foldr_nil, writeAll, write_of_le fun _ _ => Nat.zero_le _, ByteArray.append_empty]
  | cons piece pieces ih =>
    rw [List.foldr_cons, write_append, writeAll]
    cases (sink.write kept piece).result with
    | ok => exact ih
    | error => rfl

/-! ### Listings -/

theorem bytes_textOf (lines : List Target.Line) :
    (lines.map fun line => (line.text ++ "\n").toUTF8).foldr (· ++ ·) .empty =
      (Target.textOf lines).toUTF8 := by
  induction lines with
  | nil => rfl
  | cons line lines ih =>
    rw [List.map_cons, List.foldr_cons, ih, Target.textOf, Target.textOf, List.map_cons, String.join_cons]
    exact String.toByteArray_append.symm

theorem deliver_eq (listing : Target.Listing) : sink.deliver listing =
    sink.finish (sink.write .empty (Target.textOf listing.lines).toUTF8) listing.fault := by
  rw [deliver, writeAll_eq_write, bytes_textOf]

theorem finish_none (written : Delivery) : sink.finish written none = sink.flush written := by
  unfold finish
  cases written.result <;> rfl

theorem deliver_unlimited (listing : Target.Listing) : (({} : Sink).deliver listing) =
    ⟨(Target.textOf listing.lines).toUTF8, listing.fault.elim (.ok ()) .error⟩ := by
  rw [deliver_eq, write_of_le (by nofun), ByteArray.empty_append]
  cases listing.fault <;> rfl

end Sink

/-! ### Rendering -/

namespace Target

/-- A listing ends without a fault or with one of the compiler. -/
def Listing.IsInternal (fault : Option Diagnostic) : Prop := ∀ d, fault = some d → d.kind = .internal

theorem isInternal_whole (lines : List Line) : Listing.IsInternal (whole lines).fault := by
  rintro d ⟨⟩

theorem isInternal_named (i : Instruction) (lines : String → List Line) :
    Listing.IsInternal (named i lines).fault := by
  unfold named
  cases i.name? with
  | some name => exact isInternal_whole _
  | none =>
    rintro d ⟨⟩
    rfl

theorem isInternal_linesOf (settings : Settings) (scopes : ScopeTree) (i : Instruction) :
    Listing.IsInternal (linesOf settings scopes i).fault := by
  unfold linesOf
  cases i.kind with
  | pushLiteral =>
    dsimp only
    cases i.payload.bind literal? with
    | some operand => exact isInternal_whole _
    | none =>
      rintro d ⟨⟩
      rfl
  | functionEnd => exact Listing.fault_append (isInternal_whole _) (isInternal_named i _)
  | defineVariable | pushVariable | popVariable | ifLetCondition | functionBegin | paramPop | call =>
    exact isInternal_named i _
  | _ => exact isInternal_whole _

theorem isInternal_render (settings : Settings) (scopes : ScopeTree) (stream : Stream) :
    Listing.IsInternal (render settings scopes stream).fault := by
  refine Listing.fault_append (Listing.fault_foldr ?_ (isInternal_whole _))
    (Listing.fault_foldr ?_ (isInternal_whole _))
  · intro listing hlisting
    obtain ⟨i, -, rfl⟩ := List.mem_map.1 hlisting
    exact isInternal_linesOf settings scopes i
  · intro listing hlisting
    obtain ⟨name, -, rfl⟩ := List.mem_map.1 hlisting
    rw [bodyListing]
    cases body? name with
    | some lines => exact isInternal_whole lines
    | none =>
      rintro d ⟨⟩
      rfl

end Target

/-! ### Sinks that can be full -/

section limited

variable {sink : Sink} {n : Nat}
variable {listing : Target.Listing}

theorem Sink.kept_flush (written : Delivery) : (sink.flush written).kept = written.kept := by
  unfold flush
  split
  · split <;> rfl
  · rfl

theorem Sink.deliver_of_lt (hlimit : sink.limit = some n)
    (h : n < (Target.textOf listing.lines).toUTF8.size) : sink.deliver listing =
      ⟨(Target.textOf listing.lines).toUTF8.extract 0 n, .error { fault := sink.overflow }⟩ := by
  have hcut : n - ByteArray.empty.size < (Target.textOf listing.lines).toUTF8.size := h
  rw [deliver_eq, write_of_lt hlimit hcut, ByteArray.empty_append]
  cases listing.fault <;> rfl

theorem Sink.deliver_of_le (hlimit : sink.limit = some n)
    (h : (Target.textOf listing.lines).toUTF8.size ≤ n) : sink.deliver listing = match listing.fault with
      | some d => ⟨(Target.textOf listing.lines).toUTF8, .error d⟩
      | none => sink.flush ⟨(Target.textOf listing.lines).toUTF8, .ok ()⟩ := by
  rw [deliver_eq, write_of_le, ByteArray.empty_append]
  · cases listing.fault <;> rfl
  · intro limit hlimit'
    cases hlimit.symm.trans hlimit'
    exact h

theorem Sink.kept_deliver (hlimit : sink.limit = some n) (listing : Target.Listing) :
    (sink.deliver listing).kept = (Target.textOf listing.lines).toUTF8.extract 0
      (min n (Target.textOf listing.lines).toUTF8.size) := by
  rcases Nat.lt_or_ge n (Target.textOf listing.lines).toUTF8.size with hcut | hfits
  · rw [deliver_of_lt hlimit hcut, Nat.min_eq_left (Nat.le_of_lt hcut)]
  · rw [deliver_of_le hlimit hfits, Nat.min_eq_right hfits, ByteArray.extract_zero_size]
    cases listing.fault with
    | some d => rfl
    | none => exact kept_flush _

theorem Sink.deliver_eq_ok_iff (hlimit : sink.limit = some n)
    (hfault : listing.fault = none) : (sink.deliver listing).result = .ok () ↔
      (Target.textOf listing.lines).toUTF8.size ≤ n ∧ sink.failure ≠ .flushing := by
  rcases Nat.lt_or_ge n (Target.textOf listing.lines).toUTF8.size with hcut | hfits
  · rw [deliver_of_lt hlimit hcut]
    exact ⟨nofun, fun h => absurd h.1 (Nat.not_le.2 hcut)⟩
  · rw [deliver_of_le hlimit hfits, hfault]
    unfold flush
    dsimp only
    split
    · exact ⟨nofun, fun h => absurd ‹_› h.2⟩
    · exact ⟨fun _ => ⟨hfits, ‹_›⟩, fun _ => rfl⟩

theorem Sink.kind_of_deliver (settings : Settings) (scopes : ScopeTree) (stream : Stream)
    (hlimit : sink.limit = some n) {d : Diagnostic}
    (h : (sink.deliver (Target.render settings scopes stream)).result = .error d) :
    d.kind = .internal := by
  have hoverflow : sink.overflow.kind = .internal := by
    unfold overflow
    split <;> rfl
  rcases Nat.lt_or_ge n
    (Target.textOf (Target.render settings scopes stream).lines).toUTF8.size with hcut | hfits
  · rw [deliver_of_lt hlimit hcut] at h
    cases h
    exact hoverflow
  · rw [deliver_of_le hlimit hfits] at h
    split at h
    · cases h
      exact Target.isInternal_render settings scopes stream d ‹_›
    · unfold flush at h
      dsimp only at h
      split at h <;> cases h
      rfl

end limited

/-! ### Compiling -/

theorem compileTo_eq (settings : Settings) (feed : Feed) (sink : Sink) : compileTo settings feed sink =
    match (compileListing settings feed).result with
    | .error d => ⟨.empty, .error d⟩
    | .ok listing => sink.deliver { lines := listing.lines } := by
  unfold compileTo
  cases (compileListing settings feed).result with
  | error d => rfl
  | ok listing =>
    dsimp only
    rw [Sink.deliver_eq, Sink.finish_none]

/-- **Nothing is kept of a compilation that fails, and only the beginning of the code where a sink is
full.**  The same holds of rendering any instructions. -/
theorem delivery_keeps_beginning (settings : Settings) (feed : Feed) (scopes : ScopeTree)
    (stream : Stream) (n : Nat) (failure : SinkFailure) :
    let sink : Sink := ⟨some n, failure⟩
    let sent := compileTo settings feed sink
    let whole := ({} : Sink).deliver (Target.render settings scopes stream)
    let part := sink.deliver (Target.render settings scopes stream)
    (∀ d, (compileFeed settings feed).result = .error d → sent = ⟨.empty, .error d⟩) ∧
    (∀ text, (compileFeed settings feed).result = .ok text →
      sent.kept = text.toUTF8.extract 0 (min n text.toUTF8.size) ∧
        (sent.result = .ok () ↔ text.toUTF8.size ≤ n ∧ failure ≠ .flushing)) ∧
    part.kept = whole.kept.extract 0 (min n whole.kept.size) ∧
    (n < whole.kept.size → ∃ d, part.result = .error d) ∧
    (whole.kept.size ≤ n → failure ≠ .flushing → part = whole) ∧
    ∀ d, part.result = .error d → d.kind = .internal := by
  intro sink sent whole part
  have hlimit : sink.limit = some n := rfl
  have hfeed : (compileFeed settings feed).result =
    (compileListing settings feed).result.map fun listing => Target.textOf listing.lines := rfl
  have hsent : sent = _ := compileTo_eq settings feed sink
  have hwhole : whole = _ := Sink.deliver_unlimited _
  refine ⟨fun d hd => ?_, fun text htext => ?_, ?_, fun hcut => ?_, fun hfits hflush => ?_,
    fun d hd => Sink.kind_of_deliver settings scopes stream hlimit hd⟩
  · rw [hsent]
    rw [hfeed] at hd
    cases hresult : (compileListing settings feed).result with
    | error e =>
      rw [hresult] at hd
      cases hd
      rfl
    | ok listing => simp [hresult, Except.map] at hd
  · rw [hfeed] at htext
    cases hresult : (compileListing settings feed).result with
    | error e => simp [hresult, Except.map] at htext
    | ok listing =>
      rw [hresult] at htext hsent
      cases htext
      rw [hsent]
      exact ⟨Sink.kept_deliver hlimit _, Sink.deliver_eq_ok_iff hlimit rfl⟩
  · rw [hwhole]
    exact Sink.kept_deliver hlimit _
  · rw [hwhole] at hcut
    exact ⟨_, congrArg Delivery.result (Sink.deliver_of_lt hlimit hcut)⟩
  · rw [hwhole] at hfits ⊢
    refine (Sink.deliver_of_le hlimit hfits).trans ?_
    cases (Target.render settings scopes stream).fault with
    | some d => rfl
    | none => exact if_neg hflush

end OnePass
