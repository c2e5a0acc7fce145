/-!
# The C++ tokenizer interface

The vocabulary of `tokenizers_cpp.h` that every backend shares — encode flags
and options, error categories, exceptions — and the validation that
`tokenizer.cc` performs before a backend is entered.
-/

namespace TokenizersCpp

/-- The contents of a `std::string`: any bytes, the zero byte included. -/
abbrev Bytes := List UInt8

/-- `enum class EncodeFlags : uint32_t`.  The underlying type is fixed, so every
32-bit word is a value of the enumeration. -/
structure EncodeFlags where
  bits : UInt32
deriving DecidableEq, Repr

namespace EncodeFlags

def kNone : EncodeFlags := ⟨0⟩
def kIgnoreSpecialTokens : EncodeFlags := ⟨(1 : UInt32) <<< 0⟩
def kIgnoreAddedTokens : EncodeFlags := ⟨(1 : UInt32) <<< 1⟩

instance : OrOp EncodeFlags := ⟨fun lhs rhs => ⟨lhs.bits ||| rhs.bits⟩⟩
instance : AndOp EncodeFlags := ⟨fun lhs rhs => ⟨lhs.bits &&& rhs.bits⟩⟩

end EncodeFlags

/-- Per-call encoding controls, with the header's defaults. -/
structure EncodeOptions where
  addSpecialTokens : Bool := false
  flags : EncodeFlags := EncodeFlags.kNone
deriving DecidableEq, Repr

/-- Stable categories for errors reported by the tokenizer API. -/
inductive TokenizerErrorCode
  | kInvalidArgument
  | kUnsupportedOperation
  | kInternal
deriving DecidableEq, Repr

/-- What a call of the library can throw: the API's own `TokenizerError`, the
`FRException` of a failed `RV_CHECK`, or another `std::exception`. -/
inductive CppException
  | tokenizerError (code : TokenizerErrorCode) (message : String)
  | frException (msg : String)
  | stdException (what : String)
deriving DecidableEq, Repr

/-- The category of an exception of the API. -/
def CppException.code : CppException → Option TokenizerErrorCode
  | .tokenizerError code _ => some code
  | _ => none

/-- The known bits of an `EncodeFlags` word (`tokenizer.cc`). -/
def kKnownEncodeFlags : UInt32 :=
  EncodeFlags.kIgnoreSpecialTokens.bits ||| EncodeFlags.kIgnoreAddedTokens.bits

/-- `ValidateEncodeOptions`: unknown bits are the caller's mistake on every
backend; known bits need a backend that implements them. -/
def validateEncodeOptions (options : EncodeOptions) (supportsEncodeFlags : Bool) :
    Except CppException Unit :=
  let rawFlags := options.flags.bits
  if rawFlags &&& ~~~kKnownEncodeFlags ≠ 0 then
    .error (.tokenizerError .kInvalidArgument "Encode options contain unknown flag bits")
  else if rawFlags ≠ 0 ∧ ¬ supportsEncodeFlags then
    .error (.tokenizerError .kUnsupportedOperation
      "Added-token ignore flags are unsupported by this tokenizer backend")
  else
    .ok ()

/-- The options a backend accepts: no unknown bit, and no bit at all unless the
backend implements the flags. -/
def EncodeOptions.Accepted (options : EncodeOptions) (supportsEncodeFlags : Bool) : Prop :=
  options.flags.bits &&& ~~~kKnownEncodeFlags = 0 ∧
    (options.flags.bits = 0 ∨ supportsEncodeFlags = true)

instance (options : EncodeOptions) (supports : Bool) : Decidable (options.Accepted supports) :=
  inferInstanceAs (Decidable (_ ∧ _))

theorem validateEncodeOptions_eq_ok {options : EncodeOptions} {supports : Bool} :
    validateEncodeOptions options supports = .ok () ↔ options.Accepted supports := by
  unfold validateEncodeOptions EncodeOptions.Accepted
  by_cases hknown : options.flags.bits &&& ~~~kKnownEncodeFlags = 0
  · by_cases hzero : options.flags.bits = 0
    · simp [hzero]
    · cases supports <;> simp [hknown, hzero]
  · simp [hknown]

end TokenizersCpp
