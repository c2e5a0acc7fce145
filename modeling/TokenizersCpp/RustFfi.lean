import Mathlib.Data.Finset.Basic
import TokenizersCpp.Interface

/-!
# The Rust side of the C boundary

The error type, the ownership ledger and the guarded call of `rust/src/lib.rs`.
A Rust computation returns, fails with an `FfiError` or panics; `ffiCall` turns
the three ends into a status and an error slot.  Memory that Rust hands over
with `Box::into_raw` is a `RustBox`: the address it has in the ledger together
with the contents, which nobody changes while the box is out.
-/

namespace TokenizersCpp

/-- `TokenizerStatus`. -/
inductive TokenizerStatus
  | ok
  | invalidArgument
  | unsupported
  | internal
deriving DecidableEq, Repr

/-- `FfiError`. -/
inductive FfiError
  | invalidArgument (message : String)
  | unsupported (message : String)
  | internal (message : String)
deriving DecidableEq, Repr

def FfiError.status : FfiError → TokenizerStatus
  | .invalidArgument _ => .invalidArgument
  | .unsupported _ => .unsupported
  | .internal _ => .internal

def FfiError.intoMessage : FfiError → String
  | .invalidArgument message => message
  | .unsupported message => message
  | .internal message => message

/-- The payload of a panic: a `&str`, a `String`, or any other type. -/
inductive PanicPayload
  | str (message : String)
  | string (message : String)
  | other
deriving DecidableEq, Repr

/-- `panic_message(payload)`. -/
def panicMessage : PanicPayload → String
  | .str message => s!"Rust tokenizer panicked: {message}"
  | .string message => s!"Rust tokenizer panicked: {message}"
  | .other => "Rust tokenizer panicked with a non-string payload"

/-- The two ways in which a Rust computation does not return. -/
inductive Abort
  | error (error : FfiError)
  | panic (payload : PanicPayload)
deriving DecidableEq, Repr

/-- A Rust computation that may fail or panic. -/
abbrev Rust (α : Type) := Except Abort α

namespace Abort

/-- The status that `ffi_call` reports. -/
def status : Abort → TokenizerStatus
  | .error e => e.status
  | .panic _ => .internal

/-- The message that `ffi_call` writes. -/
def message : Abort → String
  | .error e => e.intoMessage
  | .panic payload => panicMessage payload

theorem status_ne_ok (abort : Abort) : abort.status ≠ .ok := by
  cases abort with
  | error e => cases e <;> simp [status, FfiError.status]
  | panic payload => simp [status]

end Abort

/-! ## Ownership -/

/-- The allocations that Rust has handed over to C: the next address the
allocator gives out, the addresses not yet given back, and the addresses that
were given back, most recent first. -/
structure Ledger where
  next : Nat
  live : Finset Nat
  released : List Nat

/-- Nothing handed over yet. -/
def Ledger.initial : Ledger := ⟨0, ∅, []⟩

/-- A pointer from `Box::into_raw`. -/
structure RustBox (α : Type) where
  addr : Nat
  value : α

/-- `Box::into_raw(Box::new(value))`: the box leaves Rust's ownership. -/
def intoRaw {α : Type} (value : α) (σ : Ledger) : RustBox α × Ledger :=
  (⟨σ.next, value⟩, { σ with next := σ.next + 1, live := insert σ.next σ.live })

/-- `drop(Box::from_raw(pointer))`: the box is given back. -/
def dropRaw {α : Type} (pointer : RustBox α) (σ : Ledger) : Ledger :=
  { σ with live := σ.live.erase pointer.addr, released := pointer.addr :: σ.released }

/-- `TokenizerEncodeResult { token_ids, len }`; a null pointer is `none`. -/
structure TokenizerEncodeResult where
  tokenIds : Option (RustBox (List UInt32))
  len : Nat

/-- `TokenizerErrorMessage { data, len }`. -/
structure TokenizerErrorMessage where
  data : Option (RustBox String)
  len : Nat

def TokenizerEncodeResult.null : TokenizerEncodeResult := ⟨none, 0⟩
def TokenizerErrorMessage.null : TokenizerErrorMessage := ⟨none, 0⟩

/-! ## The guarded call -/

/-- `write_error_message(out_error, message)`; `none` is a null `out_error`. -/
def writeErrorMessage (outError : Option TokenizerErrorMessage) (message : String) (σ : Ledger) :
    Option TokenizerErrorMessage × Ledger :=
  match outError with
  | none => (none, σ)
  | some _ =>
      let len := message.utf8ByteSize
      let (data, σ) := intoRaw message σ
      (some ⟨some data, len⟩, σ)

/-- What the closure of an entry point leaves: how it ended, the output slots as
it last wrote them, and the ledger. -/
structure ActionEnd (S : Type) where
  result : Rust Unit
  slots : S
  ledger : Ledger

/-- What an entry point returns to C: its status, the output slots, the error
slot, and the ledger. -/
structure FfiReturn (S : Type) where
  status : TokenizerStatus
  slots : S
  error : Option TokenizerErrorMessage
  ledger : Ledger

/-- `ffi_call(out_error, action)`: clears the error slot, runs the closure and
catches its panics. -/
def ffiCall {S : Type} (outError : Option TokenizerErrorMessage) (action : Ledger → ActionEnd S)
    (σ : Ledger) : FfiReturn S :=
  let outError := outError.map fun _ => TokenizerErrorMessage.null
  let done := action σ
  match done.result with
  | .ok () => ⟨.ok, done.slots, outError, done.ledger⟩
  | .error (.error error) =>
      let status := error.status
      let (outError, σ) := writeErrorMessage outError error.intoMessage done.ledger
      ⟨status, done.slots, outError, σ⟩
  | .error (.panic payload) =>
      let (outError, σ) := writeErrorMessage outError (panicMessage payload) done.ledger
      ⟨.internal, done.slots, outError, σ⟩

section FfiCall
variable {S : Type} {outError : Option TokenizerErrorMessage} {action : Ledger → ActionEnd S}
  {σ : Ledger}

/-- A closure that returns: status `Ok` and a cleared error slot. -/
theorem ffiCall_ok (h : (action σ).result = .ok ()) :
    ffiCall outError action σ =
      ⟨.ok, (action σ).slots, outError.map fun _ => .null, (action σ).ledger⟩ := by
  simp [ffiCall, h]

/-- A closure that fails or panics: its slots as they are, its status and its
message. -/
theorem ffiCall_abort {abort : Abort} (h : (action σ).result = .error abort) :
    ffiCall outError action σ =
      ⟨abort.status, (action σ).slots,
        (writeErrorMessage (outError.map fun _ => .null) abort.message (action σ).ledger).1,
        (writeErrorMessage (outError.map fun _ => .null) abort.message (action σ).ledger).2⟩ := by
  cases abort <;> simp [ffiCall, h, Abort.status, Abort.message]

end FfiCall

/-! ## Inputs -/

/-- `std::str::from_utf8`: a `&str` is a valid UTF-8 byte string. -/
def fromUtf8 (bytes : Bytes) : Option String := String.fromUTF8? ⟨bytes.toArray⟩

/-- The bytes of a `&str`. -/
def strBytes (text : String) : Bytes := text.toUTF8.data.toList

/-- `input_str(data, len, name)`; a null pointer is `none`.  `utf8Error` is the
text of the standard library's `Utf8Error`. -/
def inputStr (utf8Error : Bytes → String) (data : Option Bytes) (len : Nat) (name : String) :
    Rust String :=
  if len = 0 then
    .ok ""  -- whatever the pointer is
  else
    match data with
    | none => .error (.error (.invalidArgument s!"{name} is null with non-zero length"))
    | some bytes =>
        match fromUtf8 (bytes.take len) with
        | some text => .ok text
        | none =>
            let error := utf8Error (bytes.take len)
            .error (.error (.invalidArgument s!"{name} is not valid UTF-8: {error}"))

theorem fromUtf8_strBytes (text : String) : fromUtf8 (strBytes text) = some text := by
  have hbytes : (⟨(strBytes text).toArray⟩ : ByteArray) = text.toUTF8 := rfl
  rw [fromUtf8, hbytes]
  exact dif_pos text.isValidUTF8

/-- An input comes through when it is UTF-8, whatever it is called. -/
theorem inputStr_eq_ok {utf8Error : Bytes → String} {bytes : Bytes} {name text : String} :
    inputStr utf8Error (some bytes) bytes.length name = .ok text ↔ fromUtf8 bytes = some text := by
  by_cases hlen : bytes.length = 0
  · obtain rfl : bytes = strBytes "" := List.length_eq_zero_iff.mp hlen
    rw [inputStr, if_pos hlen, fromUtf8_strBytes]
    exact ⟨fun h => congrArg some (Except.ok.inj h), fun h => congrArg _ (Option.some.inj h)⟩
  · rw [inputStr, if_neg hlen]
    simp only [List.take_length]
    cases fromUtf8 bytes with
    | none => exact ⟨nofun, nofun⟩
    | some text' =>
      exact ⟨fun h => congrArg some (Except.ok.inj h), fun h => congrArg _ (Option.some.inj h)⟩

/-- The bytes of a `&str` come through as that `&str`. -/
theorem inputStr_strBytes (utf8Error : Bytes → String) (text name : String) :
    inputStr utf8Error (some (strBytes text)) (strBytes text).length name = .ok text :=
  inputStr_eq_ok.mpr (fromUtf8_strBytes text)

end TokenizersCpp
