import MessageCatalog.Bytes

set_option autoImplicit false

/-! # Streams

A stream hands out its bytes in pieces, and it may fail once the pieces are used up. `read` takes
bytes from the front of a stream and leaves the rest. How the bytes are cut into pieces makes no
difference to what is read (`fst_read`); the failure shows only to a reader that asks for more
bytes than there are.
-/

namespace MessageCatalog

/-- A failure to read or to write. What does not exist is told apart from everything else. -/
structure ReadFailure where
  notFound : Bool
  message : String
  deriving Repr, DecidableEq

/-- The pieces that are handed out one after another, none of them empty, and the failure that
comes after them if the stream does not just end. -/
structure ByteStream where
  pieces : List Bytes
  failure : Option ReadFailure := none
  deriving Repr, DecidableEq

namespace ByteStream

/-- A stream of the given bytes in one piece. -/
def ofBytes (data : Bytes) : ByteStream := ⟨if data.isEmpty then [] else [data], none⟩

/-- The first `limit` bytes of some pieces with a failure after them, and the pieces that are
left. -/
def readFrom (failure : Option ReadFailure) :
    Nat → List Bytes → Except ReadFailure Bytes × List Bytes
  | 0, pieces => (.ok [], pieces)
  | _ + 1, [] =>
      match failure with
      | none => (.ok [], [])
      | some f => (.error f, [])
  | limit + 1, piece :: rest =>
      if piece.length ≤ limit + 1 then
        let (bytes, left) := readFrom failure (limit + 1 - piece.length) rest
        (bytes.map (piece ++ ·), left)
      else (.ok (piece.take (limit + 1)), piece.drop (limit + 1) :: rest)

/-- The first `limit` bytes of a stream, or all of it if it is shorter, and the stream after
them. -/
def read (s : ByteStream) (limit : Nat) : Except ReadFailure Bytes × ByteStream :=
  let (bytes, left) := readFrom s.failure limit s.pieces
  (bytes, { s with pieces := left })

/-- All bytes of a stream. -/
def all (s : ByteStream) : Except ReadFailure Bytes :=
  match s.failure with
  | none => .ok s.pieces.flatten
  | some f => .error f

/-! ## Reading is a matter of the bytes -/

theorem fst_readFrom (failure : Option ReadFailure) (limit : Nat) (pieces : List Bytes) :
    (readFrom failure limit pieces).1 =
      match failure with
      | some f =>
          if pieces.flatten.length < limit then .error f else .ok (pieces.flatten.take limit)
      | none => .ok (pieces.flatten.take limit) := by
  fun_induction readFrom failure limit pieces with
  | case1 => cases failure <;> simp
  | case2 _ h => simp [h]
  | case3 _ f h => simp [h]
  | case4 limit piece rest h bytes left heq ih =>
    rw [heq] at ih
    show bytes.map (piece ++ ·) = _
    rw [show bytes = _ from ih]
    have hp : piece.take (limit + 1) = piece := List.take_of_length_le h
    cases failure with
    | none => simp [Except.map, List.take_append, hp]
    | some f =>
      simp only [List.flatten_cons, List.length_append]
      split
      · rename_i hlt
        rw [if_pos (by omega)]
        rfl
      · rename_i hlt
        rw [if_neg (by omega)]
        simp [Except.map, List.take_append, hp]
  | case5 limit piece rest h =>
    have hz : limit + 1 - piece.length = 0 := by omega
    have hl : ¬ (piece :: rest).flatten.length < limit + 1 := by
      simp only [List.flatten_cons, List.length_append]
      omega
    cases failure <;> simp [List.take_append, hz] at hl ⊢
    omega

/-- What is left are the bytes after those that were read. -/
theorem flatten_readFrom (failure : Option ReadFailure) (limit : Nat) (pieces : List Bytes) :
    (readFrom failure limit pieces).2.flatten = pieces.flatten.drop limit := by
  fun_induction readFrom failure limit pieces with
  | case1 => simp
  | case2 => simp
  | case3 => simp
  | case4 limit piece rest h bytes left heq ih =>
    rw [heq] at ih
    have hp : piece.drop (limit + 1) = [] := List.drop_of_length_le h
    simpa [List.drop_append, hp] using ih
  | case5 limit piece rest h =>
    have hz : limit + 1 - piece.length = 0 := by omega
    simp [List.drop_append, hz]

/-- How the bytes are cut into pieces makes no difference to what is read. A failure is met only
by a reader that asks for more bytes than there are. -/
theorem fst_read (s : ByteStream) (limit : Nat) :
    (s.read limit).1 =
      match s.failure with
      | some f =>
          if s.pieces.flatten.length < limit then .error f
          else .ok (s.pieces.flatten.take limit)
      | none => .ok (s.pieces.flatten.take limit) :=
  fst_readFrom s.failure limit s.pieces

end ByteStream

end MessageCatalog
