/-!
# Similar words

How much two words have in common. Two equal characters match if their places lie less than half the
longer word apart, each character being matched once. The measure is the mean of three shares: of
the characters that match in either word, and of the matches that stay in order, where a pair that
changed places counts once.
-/

set_option autoImplicit false

namespace Minicomputer.Text.Similarity

/-- A share of a whole, which is not zero. -/
structure Share where
  part : Nat
  whole : Nat
  deriving DecidableEq, Repr

def Share.below (p q : Share) : Bool := p.part * q.whole < q.part * p.whole

/-- For each character of a word the place in the other word that it matches, if there is one. -/
def partners (s t : List Char) : List (Option Nat) :=
  let reach := Nat.max s.length t.length / 2 - 1
  (s.zipIdx.foldl (fun (found : List (Option Nat)) (c, i) =>
    let place := t.zipIdx.find? fun (d, j) =>
      c == d && i ≤ j + reach && j ≤ i + reach && !found.contains (some j)
    place.map Prod.snd :: found) []).reverse

def similarity (s t : List Char) : Share :=
  if s.isEmpty && t.isEmpty then ⟨1, 1⟩
  else
    let places := partners s t
    let left := (s.zip places).filterMap fun (c, place) => if place.isSome then some c else none
    let right := t.zipIdx.filterMap fun (c, j) => if places.contains (some j) then some c else none
    let m := left.length
    if m = 0 then ⟨0, 1⟩
    else
      let moved := ((left.zip right).filter fun (c, d) => c != d).length / 2
      ⟨m * m * t.length + m * m * s.length + (m - moved) * s.length * t.length,
        3 * m * s.length * t.length⟩

/-- Words with a larger share in common are taken for each other. -/
def threshold : Share := ⟨7, 10⟩

/-- The words that may have been meant by another word, the most similar ones last. -/
def similar (word : String) (words : List String) : List String :=
  let scored := words.map fun w => (similarity word.toList w.toList, w)
  let close := scored.filter fun (share, _) => threshold.below share
  (close.mergeSort fun a b => !b.1.below a.1).map Prod.snd

end Minicomputer.Text.Similarity
