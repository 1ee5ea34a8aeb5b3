import AnomaAlpha.Transaction
import AnomaAlpha.Lib.MessagePack

-- `rmp_serde::to_vec` on the types of the chain: a struct is the array of its
-- fields, a newtype is its content, a variant is a map from its name.
namespace AnomaAlpha.Wire
open MessagePack

variable {A : Type} [AddressSpace A]

def variant (name : String) (content : Bytes) : Bytes := map [(str name,content)]

-- `Vec<u8>` is a sequence of integers to serde.
def bytes (data : Bytes) : Bytes := array (data.map fun byte => uint byte.toNat)

def address (addr : A) : Bytes := str (AddressSpace.path addr)

-- Addresses are ASCII; a string that is no address has no value here.
def readAddress (data : Bytes) : Option Address := do
  let path ← readStr data
  if path.all (· < 0x80) then (Address.new (String.ofList (path.map fun byte => Char.ofNat byte.toNat))).toOption else none

-- The digest is an array of 64 bytes of which `size` are used.
def multihash (h : Multihash) : Bytes :=
  array [uint h.code,uint h.digest.length,bytes (h.digest ++ List.replicate (64-h.digest.length) 0)]

def param : Param A → Bytes
  | .inline data => variant "Inline" (bytes data)
  | .accountRef addr => variant "AccountRef" (address addr)
  | .proposalRef addr => variant "ProposalRef" (address addr)
  | .calldataRef key => variant "CalldataRef" (str key)

def code : Code A → Bytes
  | .inline wasm => variant "Inline" (bytes wasm)
  | .accountRef addr entrypoint => variant "AccountRef" (array [address addr,str entrypoint])

def predicate (pred : Predicate A) : Bytes := array [code pred.code,array (pred.params.map param)]

def tree : PredicateTree A → Bytes
  | .id pred => variant "Id" (predicate pred)
  | .not t => variant "Not" (tree t)
  | .and l r => variant "And" (array [tree l,tree r])
  | .or l r => variant "Or" (array [tree l,tree r])

def account (acc : Account A) : Bytes := array [bytes acc.state,tree acc.predicates]

def change : AccountChange A → Bytes
  | .createAccount acc => variant "CreateAccount" (account acc)
  | .replaceState state => variant "ReplaceState" (bytes state)
  | .replacePredicates predicates => variant "ReplacePredicates" (tree predicates)
  | .deleteAccount => str "DeleteAccount"

def expandedChange : ExpandedAccountChange A → Bytes
  | .createAccount acc => variant "CreateAccount" (account acc)
  | .replaceState current proposed => variant "ReplaceState" (array [bytes current,bytes proposed])
  | .replacePredicates current proposed => variant "ReplacePredicates" (array [tree current,tree proposed])
  | .deleteAccount current => variant "DeleteAccount" (array [account current])

def expandedParam : ExpandedParam A → Bytes
  | .inline data => variant "Inline" (bytes data)
  | .accountRef addr state => variant "AccountRef" (array [address addr,bytes state])
  | .proposalRef addr change => variant "ProposalRef" (array [address addr,expandedChange change])
  | .calldataRef key value => variant "CalldataRef" (array [str key,bytes value])

def calldata (data : Calldata) : Bytes := map (data.toList.map fun entry => (str entry.1,bytes entry.2))

def intent (recentBlockhash : Multihash) (expectations : PredicateTree A) (data : Calldata) : Bytes :=
  array [multihash recentBlockhash,tree expectations,calldata data]

section
variable [Ord A] [Std.TransOrd A]

def transaction (tx : Transaction A) : Bytes :=
  array [array (tx.intents.map fun i => intent i.recentBlockhash i.expectations i.calldata),
    map (tx.proposals.toList.map fun entry => (address entry.1,change entry.2))]

def context (ctx : PredicateContext A) : Bytes :=
  array [map (ctx.calldata.toList.map fun entry => (multihash entry.1,calldata entry.2)),
    map (ctx.proposals.toList.map fun entry => (address entry.1,expandedChange entry.2))]

end

def params (values : List (ExpandedParam A)) : Bytes := array (values.map expandedParam)

def hashing (sha3 : Bytes → Bytes) (sha3_length : ∀ message, (sha3 message).length = 32) : Hashing A :=
  ⟨multihash,tree,intent,sha3,sha3_length,Base58.bitcoin⟩

end AnomaAlpha.Wire
