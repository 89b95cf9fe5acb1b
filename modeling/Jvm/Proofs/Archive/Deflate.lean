import Jvm.Archive.Deflate

/-!
# Compressed data end by themselves

`inflate_append`: what `inflate` makes of a list of bytes does not change if further bytes follow, and
neither does the number of bytes that it takes up. So a stream that is followed by anything gives its
contents and its own length (`IsStream.inflate_append`).

Every reader that succeeds is `Extended` by a reader on a longer input, which gives the same and leaves what
was left, with the further bits behind it. Two readers are compared and not one, since the fuel of the loops
is taken from the length of the input; and the further bits are whole bytes, as `align` counts from the end.
-/

namespace Jvm.Deflate

/-- Where `x` succeeds, `y` does the same on the input with any whole bytes behind it. -/
def Extended {α : Type} (x y : Reader α) : Prop :=
  ∀ s t a r, 8 ∣ t.length → x s = .ok (a, r) → y (s ++ t) = .ok (a, r ++ t)

namespace Extended

variable {α β : Type} {x y : Reader α}

theorem pure (a : α) : Extended (pure a) (Pure.pure a) := by
  rintro s t b r - h
  cases h
  rfl

theorem throw (e : ArchiveError) : Extended (throw e) y := by
  rintro s t b r - h
  cases h

theorem invalid : Extended invalid y := throw _

theorem bind {f g : α → Reader β} (h : Extended x y) (hfg : ∀ a, Extended (f a) (g a)) :
    Extended (x >>= f) (y >>= g) := by
  intro s t b r ht hx
  change (x s >>= fun p => f p.1 p.2) = .ok (b, r) at hx
  change (y (s ++ t) >>= fun p => g p.1 p.2) = .ok (b, r ++ t)
  cases hxs : x s with
  | error e => rw [hxs] at hx; cases hx
  | ok p =>
    rw [hxs] at hx
    rw [h s t p.1 p.2 ht hxs]
    exact hfg p.1 p.2 t b r ht hx

/-- A reader may look at the input, of which only the length is known to grow. -/
theorem get_bind {f g : Bits → Reader β} (h : ∀ s s', s.length ≤ s'.length → Extended (f s) (g s')) :
    Extended (get >>= f) (get >>= g) := by
  intro s t b r ht hx
  exact h s (s ++ t) (by simp) s t b r ht hx

theorem ite {c : Prop} [Decidable c] {x' y' : Reader α} (h : Extended x y) (h' : Extended x' y') :
    Extended (if c then x else x') (if c then y else y') := by
  split
  · exact h
  · exact h'

end Extended

/-! ### The readers -/

theorem extended_take (n : Nat) : Extended (take n) (take n) := by
  intro s t a r _ h
  simp only [take] at h ⊢
  split at h
  · cases h
  · rename_i hn
    have hle : n ≤ s.length := by rw [List.length_take] at hn; omega
    cases h
    rw [List.take_append_of_le_length hle, List.drop_append_of_le_length hle, if_neg hn]

theorem extended_takeNumber (n : Nat) : Extended (takeNumber n) (takeNumber n) :=
  (extended_take n).bind fun _ => .pure _

theorem extended_align : Extended align align := by
  intro s t a r ht h
  have hle : s.length % 8 ≤ s.length := Nat.mod_le ..
  have hmod : (s ++ t).length % 8 = s.length % 8 := by rw [List.length_append]; omega
  cases h
  rw [align, hmod, List.drop_append_of_le_length hle]

theorem extended_decode (code : Code) : Extended (decode code) (decode code) := by
  intro s t a r _ h
  rw [decode] at h ⊢
  induction s generalizing code with
  | nil => cases h
  | cons b s ih =>
    rw [List.cons_append]
    rw [decodeFrom] at h ⊢
    split at h
    · cases h
    · split at h
      · cases h
        rfl
      · exact ih _ h

theorem extended_takeExtra (table : List (Nat × Nat)) (index : Nat) :
    Extended (takeExtra table index) (takeExtra table index) := by
  rw [takeExtra]
  split
  · exact (extended_takeNumber _).bind fun _ => .pure _
  · exact .invalid

theorem extended_readSymbols (literals distances : Code) {m n : Nat} (h : m ≤ n) (out : Array UInt8) :
    Extended (readSymbols literals distances m out) (readSymbols literals distances n out) := by
  induction m generalizing n out with
  | zero => exact .throw _
  | succ m ih =>
    obtain ⟨n, rfl⟩ := Nat.exists_eq_succ_of_ne_zero (Nat.ne_zero_of_lt h)
    have ih := fun out => ih (Nat.le_of_succ_le_succ h) out
    refine (extended_decode _).bind fun symbol => .ite (ih _) (.ite (.pure _) ?_)
    refine (extended_takeExtra _ _).bind fun length => (extended_decode _).bind fun distance => ?_
    exact (extended_takeExtra _ _).bind fun _ => ih _

theorem extended_readStored (out : Array UInt8) : Extended (readStored out) (readStored out) := by
  refine extended_align.bind fun _ => (extended_takeNumber _).bind fun length => ?_
  refine (extended_takeNumber _).bind fun complement => .ite .invalid ?_
  exact (extended_take _).bind fun _ => .pure _

theorem extended_takeTriples (n : Nat) : Extended (takeTriples n) (takeTriples n) := by
  induction n with
  | zero => exact .pure _
  | succ n ih => exact (extended_takeNumber _).bind fun _ => ih.bind fun _ => .pure _

theorem extended_readLengths (code : Code) (total fuel : Nat) (newest : List Nat) :
    Extended (readLengths code total fuel newest) (readLengths code total fuel newest) := by
  induction fuel generalizing newest with
  | zero => exact .ite (.pure _) .invalid
  | succ fuel ih =>
    refine .ite .invalid (.ite (.pure _) ((extended_decode _).bind fun symbol => .ite (ih _) (.ite ?_ ?_)))
    · split
      · exact .invalid
      · exact (extended_takeNumber _).bind fun _ => ih _
    · exact .ite ((extended_takeNumber _).bind fun _ => ih _) ((extended_takeNumber _).bind fun _ => ih _)

theorem extended_buildCode (lengths : List Nat) : Extended (buildCode lengths) (buildCode lengths) :=
  .ite (.pure _) .invalid

theorem extended_readCodes : Extended readCodes readCodes := by
  refine (extended_takeNumber _).bind fun literals => (extended_takeNumber _).bind fun distances => ?_
  refine (extended_takeNumber _).bind fun written => .ite .invalid ?_
  refine (extended_takeTriples _).bind fun triples => .ite ?_ .invalid
  refine (extended_readLengths _ _ _ _).bind fun all => (extended_buildCode _).bind fun distanceCode => ?_
  exact (extended_buildCode _).bind fun _ => .pure _

theorem extended_readBlocks {m n : Nat} (h : m ≤ n) (out : Array UInt8) :
    Extended (readBlocks m out) (readBlocks n out) := by
  induction m generalizing n out with
  | zero => exact .throw _
  | succ m ih =>
    obtain ⟨n, rfl⟩ := Nat.exists_eq_succ_of_ne_zero (Nat.ne_zero_of_lt h)
    have ih := fun out => ih (Nat.le_of_succ_le_succ h) out
    refine (extended_takeNumber _).bind fun last => (extended_takeNumber _).bind fun kind => ?_
    refine .get_bind fun s s' hs => ?_
    have next : ∀ out, Extended (if last = 1 then pure out else readBlocks m out)
        (if last = 1 then pure out else readBlocks n out) := fun out => .ite (.pure out) (ih out)
    dsimp only
    split
    · exact (extended_readStored _).bind next
    · exact (extended_readSymbols _ _ hs _).bind next
    · exact extended_readCodes.bind fun _ => (extended_readSymbols _ _ hs _).bind next
    · exact .bind .invalid next

/-! ### Streams -/

theorem length_bitsOf (bs : List UInt8) : (bitsOf bs).length = 8 * bs.length := by
  simp [bitsOf, List.length_flatMap, List.map_const', Nat.mul_comm]

theorem inflate_append {input out : List UInt8} {n : Nat} (h : inflate input = .ok (out, n)) (more : List UInt8) :
    inflate (input ++ more) = .ok (out, n) := by
  unfold inflate at h ⊢
  split at h
  · rename_i all rest hblocks
    have hbits : bitsOf (input ++ more) = bitsOf input ++ bitsOf more := List.flatMap_append
    have hfuel : 8 * input.length + 1 ≤ 8 * (input ++ more).length + 1 := by rw [List.length_append]; omega
    rw [hbits, extended_readBlocks hfuel _ _ (bitsOf more) _ _ ⟨_, length_bitsOf more⟩ hblocks]
    cases h
    dsimp only
    rw [List.length_append, List.length_append, length_bitsOf, Nat.add_mul_div_left _ _ (by decide),
      Nat.add_sub_add_right]
  · cases h

theorem taken_le {input out : List UInt8} {taken : Nat} (h : inflate input = .ok (out, taken)) :
    taken ≤ input.length := by
  rw [inflate] at h
  split at h
  · obtain ⟨-, rfl⟩ := Prod.mk.inj (Except.ok.inj h)
    exact Nat.sub_le ..
  · cases h

/-- A list of bytes that expands to contents, all bytes of it. -/
def IsStream (stream contents : List UInt8) : Prop := inflate stream = .ok (contents, stream.length)

theorem IsStream.inflate_append {stream contents : List UInt8} (h : IsStream stream contents) (more : List UInt8) :
    inflate (stream ++ more) = .ok (contents, stream.length) :=
  Deflate.inflate_append h more

theorem IsStream.ne_nil {stream contents : List UInt8} (h : IsStream stream contents) : stream ≠ [] := by
  rintro rfl
  cases h

end Jvm.Deflate
