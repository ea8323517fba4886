import Land.Lib.Versioned

/-!
# SeqLock

`SeqLock<T>` of `sync/src/seqlock.rs`.  A value of a `Copy` type is its words; `write` stores all of them,
the closure of `update` makes the stores it makes, `try_read` copies all words and the closure of
`try_read_with` is a program of loads.
-/

namespace Land.Sync

open Versioned

variable {n : ℕ} {W R : Type}

/-- The calls of the writer; `update` with the stores that its closure makes on given data. -/
inductive WriteCall (n : ℕ) (W : Type) where
  | write (value : Fin n → W)
  | update (f : (Fin n → W) → List (Fin n × W))

/-- The calls of a reader. -/
inductive ReadCall (n : ℕ) (W R : Type) where
  | tryRead
  | tryReadWith (f : Prog (Fin n) W R)

/-- What a call returns in `Some`. -/
inductive Value (n : ℕ) (W R : Type) where
  | data (value : Fin n → W)
  | result (r : R)

/-- `SeqLock::new(value)` and its operations.  The destination of the copy in `try_read` is overwritten, so
what it holds before does not matter. -/
def seqLock (value : Fin n → W) :
    Protocol (Fin n) W (WriteCall n W) (ReadCall n W R) (Value n W R) where
  initial := value
  skips := fun _ => false
  stores
    | .write value, _ => (List.finRange n).map fun i => (i, value i)
    | .update f, data => f data
  program
    | .tryRead => .copy value .data (List.finRange n)
    | .tryReadWith f => f.map .result

/-- The data after a call. -/
def WriteCall.apply (data : Fin n → W) : WriteCall n W → Fin n → W
  | write value => value
  | update f => (f data).foldl store data

/-- The data after some calls. -/
def dataAfter (value : Fin n → W) (calls : List (WriteCall n W)) : Fin n → W :=
  calls.foldl WriteCall.apply value

/-- What a call returns if nothing interferes. -/
def ReadCall.value (data : Fin n → W) : ReadCall n W R → Value n W R
  | tryRead => .data data
  | tryReadWith f => .result (f.eval data)

theorem seqLock_write (value data : Fin n → W) (c : WriteCall n W) :
    (seqLock (R := R) value).write data c = c.apply data := by
  cases c with
  | write value' =>
    show ((List.finRange n).map fun i => (i, value' i)).foldl store data = value'
    rw [foldl_store_map]
    simp
  | update f => rfl

theorem seqLock_contents (value : Fin n → W) (calls : List (WriteCall n W)) :
    (seqLock (R := R) value).contents calls = dataAfter value calls := by
  have hwrite : (seqLock (R := R) value).write = WriteCall.apply := by
    funext data c
    exact seqLock_write value data c
  rw [Protocol.contents, hwrite]
  rfl

theorem seqLock_eval (value data : Fin n → W) (q : ReadCall n W R) :
    ((seqLock value).program q).eval data = q.value data := by
  cases q with
  | tryRead =>
    show (Prog.copy value Value.data (List.finRange n)).eval data = _
    rw [Prog.eval_copy]
    simp [ReadCall.value]
  | tryReadWith f => exact Prog.eval_map _ _ _

end Land.Sync
