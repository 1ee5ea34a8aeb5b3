import AnomaAlpha.Execution
import AnomaAlpha.Wire

set_option linter.unusedSectionVars false

namespace AnomaAlpha

-- A predicate as its module exports it; the text is that of a trap.
abbrev Entrypoint := Bytes → Bytes → Except String UInt32

-- A host that knows what the exports of some binaries do. Its memory is the list
-- of the buffers written so far and a pointer is an index into it.
structure Host (A : Type := Address) [Ord A] extends Hashing A where
  encodeContext : PredicateContext A → Except String Bytes
  encodeParams : List (ExpandedParam A) → Except String Bytes
  modules : Bytes → Option (String → Option Entrypoint)

variable {A : Type} [Ord A] [Std.TransOrd A] [AddressSpace A]

namespace Host

inductive Exported where
  | allocate
  | ingest
  | entry (run : Entrypoint)

def lookup (exports : String → Option Entrypoint) (name : String) (arguments : Nat) : Except String Exported :=
  if name = "__allocate" ∧ arguments = 1 then .ok .allocate
  else if (name = "__ingest_context" ∨ name = "__ingest_params") ∧ arguments = 2 then .ok .ingest
  else match exports name with
    | some run => if arguments = 2 then .ok (.entry run) else .error "Incompatible Export Type"
    | none => .error ("Missing export " ++ name)

def callExport (buffers : List Bytes) : Exported → List UInt32 → Except String UInt32
  | .allocate,_ => .ok (UInt32.ofNat buffers.length)
  | .ingest,ptr :: _ => .ok ptr
  | .entry run,[params,context] => match buffers[params.toNat]?,buffers[context.toNat]? with
    | some params,some context => run params context
    | _,_ => .error "out of bounds memory access"
  | _,_ => .error "indirect call type mismatch"

def runtime (h : Host A) : Runtime A where
  toHashing := h.toHashing
  Module := String → Option Entrypoint
  Memory := List Bytes
  Instance := (String → Option Entrypoint) × List Bytes
  TypedFunction := Exported
  encodeContext := h.encodeContext
  encodeParams := h.encodeParams
  deserialize _ := none
  fromBinary code := match h.modules code with
    | some exports => .ok exports
    | none => .error "Validation error: unexpected end of file"
  newMemory _ := .ok []
  newInstance exports buffers := .ok (exports,buffers)
  getTypedFunction store name arguments := lookup store.1 name arguments
  call function arguments store := (callExport store.2 function arguments).map fun r => (r,store)
  write _ data store := .ok (store.1,store.2 ++ [data])

theorem invoke_runtime (h : Host A) {pred : ExpandedPredicate A} {cache : View A} {exports : String → Option Entrypoint}
    {run : Entrypoint} {context params : Bytes} (known : h.modules pred.code.code = some exports)
    (exported : lookup exports pred.code.entrypoint 2 = .ok (.entry run))
    (encoded : h.encodeParams pred.params = .ok params) :
    Execution.invoke h.runtime context pred cache = match run params context with
      | .error e => .error (.execution e)
      | .ok result => if result = 0 then .ok false else if result = 1 then .ok true
        else .error (.invalidReturnValue result) := by
  have loaded : Execution.loadModule h.runtime pred.code.code cache = .ok exports := by
    unfold Execution.loadModule
    cases cache (Execution.cachekey h.runtime.toHashing pred.code.code) <;> simp [runtime,known,Except.mapError]
  have allocates : lookup exports "__allocate" 1 = .ok .allocate := rfl
  have ingests : lookup exports "__ingest_context" 2 = .ok .ingest ∧ lookup exports "__ingest_params" 2 = .ok .ingest :=
    ⟨rfl,rfl⟩
  simp only [Execution.invoke,loaded]
  simp only [runtime,allocates,ingests.1,ingests.2,exported,encoded,Except.mapError,bind,Except.bind,
    Execution.deliverData,callExport,Except.map]
  simp only [List.nil_append,List.length_nil,List.length_singleton,List.singleton_append]
  have params_at : [context,params][(UInt32.ofNat 1).toNat]? = some params := rfl
  have context_at : [context,params][(UInt32.ofNat 0).toNat]? = some context := rfl
  simp only [params_at,context_at]
  cases run params context with
  | error e => rfl
  | ok result => simp only [pure,Except.pure,throw,throwThe,MonadExceptOf.throw]

-- The host of one binary and its digest.
def single (wasm digest : Bytes) (sized : digest.length = 32) (exports : String → Option Entrypoint) : Host A where
  toHashing := Wire.hashing (fun message => if message = wasm then digest else List.replicate 32 0) <| by
    intro message
    split <;> simp [sized]
  encodeContext context := .ok (Wire.context context)
  encodeParams params := .ok (Wire.params params)
  modules code := if code = wasm then some exports else none

theorem single_invoke {wasm digest : Bytes} {sized : digest.length = 32} {exports : String → Option Entrypoint}
    {name : String} (exported : lookup exports name 2 = .ok (.entry fun _ _ => .ok 1)) (context : Bytes)
    (params : List (ExpandedParam A)) (cache : View A) :
    Execution.invoke (single wasm digest sized exports).runtime context ⟨⟨wasm,name⟩,params⟩ cache = .ok true := by
  have known : (single (A:=A) wasm digest sized exports).modules wasm = some exports := by simp [single]
  rw [invoke_runtime (single wasm digest sized exports) known exported rfl]
  rfl

end Host

-- The two ingest functions return their pointer and `invoke` returns 1.
def acceptWasm : Bytes :=
  [0x00,0x61,0x73,0x6d,0x01,0x00,0x00,0x00,
   0x01,0x0c,0x02,0x60,0x01,0x7f,0x01,0x7f,0x60,0x02,0x7f,0x7f,0x01,0x7f,
   0x03,0x05,0x04,0x00,0x01,0x01,0x01,
   0x07,0x3c,0x04,
   0x0a,0x5f,0x5f,0x61,0x6c,0x6c,0x6f,0x63,0x61,0x74,0x65,0x00,0x00,
   0x10,0x5f,0x5f,0x69,0x6e,0x67,0x65,0x73,0x74,0x5f,0x63,0x6f,0x6e,0x74,0x65,0x78,0x74,0x00,0x01,
   0x0f,0x5f,0x5f,0x69,0x6e,0x67,0x65,0x73,0x74,0x5f,0x70,0x61,0x72,0x61,0x6d,0x73,0x00,0x02,
   0x06,0x69,0x6e,0x76,0x6f,0x6b,0x65,0x00,0x03,
   0x0a,0x15,0x04,0x04,0x00,0x41,0x00,0x0b,0x04,0x00,0x20,0x00,0x0b,0x04,0x00,0x20,0x00,0x0b,0x04,0x00,0x41,0x01,0x0b]

def acceptDigest : Bytes :=
  [0x24,0x42,0x54,0x2f,0x6c,0xff,0xb9,0x54,0xa5,0xd8,0x4c,0xdb,0x6b,0x86,0x3c,0x8d,
   0x09,0x61,0xb2,0xdf,0x86,0xeb,0xe1,0x48,0x98,0x94,0x6e,0x4d,0x59,0x1c,0x98,0xa4]

def acceptExports : String → Option Entrypoint :=
  fun name => if name = "invoke" then some fun _ _ => .ok 1 else none

theorem acceptDigest_length : acceptDigest.length = 32 := rfl

def acceptHost : Host := .single acceptWasm acceptDigest acceptDigest_length acceptExports

theorem acceptHost_invoke (context : Bytes) (params : List ExpandedParam) (cache : View) :
    Execution.invoke acceptHost.runtime context ⟨⟨acceptWasm,"invoke"⟩,params⟩ cache = .ok true :=
  Host.single_invoke rfl context params cache

end AnomaAlpha
