import SnapdAsserts.Stream.Returned

/-!
# `readUntil`'s incremental search

Each round of `readUntil` peeks a window twice as large as the last and
searches it for the delimiter from `last = size - len(delim) + 1` on, not
from its start: the bytes before `last` were searched in the round before.
`readUntilFromStart` is the plain loop that searches every window from its
start.  Whatever the reader and whatever state the decoder is in, the two
return the same and leave the decoder in the same state
(`Decoder.readUntil_eq_fromStart`): a window extends the one before, which
was full and held no `"\n\n"`, so none starts before `last`.
-/

namespace SnapdAsserts
namespace Decoder

/-- `readUntil`'s loop with each window searched from its start. -/
def readUntilFromStart (delim : Bytes) (maxSize size : Nat) (positive : 0 < size) (d : Decoder) :
    Except Panic ((Bytes × Option ReadError) × Decoder) :=
  match d.peek size with
  | .error p => .error p
  | .ok ((buf, err), d) =>
      match index buf delim with
      | some i => .ok ((buf.take (i + delim.length), none), d.discard (i + delim.length))
      | none =>
          if err.isSome ∧ buf.length = d.b.buffered.length then .ok ((buf, err.map .io), d.discard buf.length)
          else if tooLarge : maxSize < 2 * size then .ok (([], some (.maxSizeExceeded delim)), d)
          else readUntilFromStart delim maxSize (2 * size) (by omega) d
termination_by maxSize + 1 - size
decreasing_by omega

/-- With no `"\n\n"` starting before `last`, the first one is the first one
from `last` on. -/
theorem index_eq_of_sepFree {buf : Bytes} {last : Nat} (free : SepFree buf last) :
    index buf nlnl = (index (buf.drop last) nlnl).map (last + ·) := by
  cases found : index (buf.drop last) nlnl with
  | none =>
      rw [Option.map_none']
      refine index_eq_none_iff.mpr fun j sep => ?_
      by_cases before : j < last
      · exact free j before sep
      · refine index_eq_none_iff.mp found (j - last) ?_
        rwa [List.drop_drop, Nat.add_sub_cancel' (by omega)]
  | some i =>
      obtain ⟨at_i, before_i⟩ := index_eq_some_iff.mp found
      rw [Option.map_some']
      refine index_eq_some_iff.mpr ⟨by rwa [List.drop_drop] at at_i, fun j earlier sep => ?_⟩
      by_cases before : j < last
      · exact free j before sep
      · refine before_i (j - last) (by omega) ?_
        rwa [List.drop_drop, Nat.add_sub_cancel' (by omega)]

/-- A round of `readUntil`'s loop from a search start before which the
bytes an earlier `peek` returned hold no `"\n\n"` does what the plain loop
does. -/
theorem readUntilLoop_eq_fromStart (maxSize size : Nat) (positive : 0 < size) (last : Nat) (d : Decoder)
    {seen : Bytes} (window : seen <+: d.b.buffered) (within : seen.length ≤ size)
    (early : last = 0 ∨ last < seen.length) (free : SepFree seen last) :
    readUntilLoop nlnl maxSize last size positive d = readUntilFromStart nlnl maxSize size positive d := by
  induction' hk : maxSize + 1 - size using Nat.strong_induction_on with k ih
    generalizing size last d seen
  rw [readUntilLoop, readUntilFromStart]
  cases peeked : d.peek size with
  | error p => rfl
  | ok result =>
  obtain ⟨⟨buf₁, err₁⟩, d₁⟩ := result
  have ext := peek_extends peeked
  have free₁ := sepFree_of_prefix ((List.prefix_take_iff.mpr ⟨window, within⟩).trans ext.kept) early free
  have reaches : last ≤ buf₁.length := by
    have := ((List.prefix_take_iff.mpr ⟨window, within⟩).trans ext.kept).length_le
    omega
  simp only
  rw [if_neg (by omega), Int.toNat_natCast, index_eq_of_sepFree free₁]
  cases found : index (buf₁.drop last) nlnl with
  | some i => simp only [Option.map_some', Nat.add_assoc]
  | none =>
      simp only [Option.map_none']
      by_cases stop : err₁.isSome ∧ buf₁.length = d₁.b.buffered.length
      · rw [if_pos stop, if_pos stop]
      rw [if_neg stop, if_neg stop]
      by_cases tooLarge : maxSize < 2 * size
      · rw [dif_pos tooLarge, dif_pos tooLarge]
      rw [dif_neg tooLarge, dif_neg tooLarge, nextLast_eq positive]
      have full : buf₁.length = size := by
        by_contra shorter
        exact stop (ext.short (by have := ext.at_most; omega))
      exact ih _ (by omega) (2 * size) (by omega) (size - 1) d₁ ext.prefix_buffered (by omega)
        (.inr (by omega)) (full ▸ sepFree_window (List.prefix_refl _) free₁ found) rfl

/-- The optimised search of `readUntil(nlnl, maxSize)` agrees with the plain
one on every decoder, whatever its reader: same bytes, same error, same
state after. -/
theorem readUntil_eq_fromStart (d : Decoder) (maxSize : Nat) :
    d.readUntil nlnl maxSize = readUntilFromStart nlnl maxSize d.initialBufSize d.initialBufSize_pos d :=
  readUntilLoop_eq_fromStart maxSize _ _ 0 d List.nil_prefix (Nat.zero_le _) (.inl rfl)
    (fun _ none => absurd none (by omega))

end Decoder
end SnapdAsserts
