import Havemind.RevisionSchema
import Mathlib.Data.List.AList

/-!
The content-addressed files of the server. A write of a blob probes the final path,
verifies what is there, or fills a temporary file beside it and renames that; each of
these is a step of its own, since other requests run between them.
-/
namespace Havemind.BlobStore

open JsText RevisionSchema Option AList

abbrev Bytes := List UInt8

/-- A blob's path below its directory: the shard and the file's name. -/
structure BlobPath where
  shard : JsString
  name : JsString
  deriving DecidableEq

/-- The regular files below a directory of blobs. -/
abbrev BlobTree := AList fun _ : BlobPath => Bytes

def dot : CodeUnit := 46
def slash : CodeUnit := 47

/-- The digest of a blob, the hexadecimal text it is written as, and the digest a
file's name is the text of. -/
structure BlobAddress where
  hashBlob : Bytes → BlobHash
  text : BlobHash → JsString
  parse : JsString → Option BlobHash
  parse_eq_some : ∀ name hash, parse name = some hash ↔ text hash = name
  text_plain : ∀ hash, dot ∉ text hash

section
variable (address : BlobAddress)

def pathForHash (hash : BlobHash) : BlobPath :=
  ⟨(address.text hash).take 2, address.text hash⟩

/-- The file a blob is written to before it has its name; `unique` stands for the
process and the random part. -/
def temporaryPath (hash : BlobHash) (unique : JsString) : BlobPath :=
  ⟨(address.text hash).take 2, dot :: address.text hash ++ dot :: unique⟩

/-- The path as the directory walk returns it. -/
def absolutePath (directory : JsString) (path : BlobPath) : JsString :=
  directory ++ slash :: path.shard ++ slash :: path.name

/-- The blob is under its content address, and its bytes have that address. -/
def Settled (tree : BlobTree) (hash : BlobHash) : Prop :=
  ∃ bytes, tree.lookup (pathForHash address hash) = some bytes ∧ address.hashBlob bytes = hash

end

/-- What a write awaits. -/
inductive PutStage
  | queued
  | verifying
  | creating
  | writing (temporary : BlobPath) (written : ℕ)
  | publishing
  deriving DecidableEq

structure Put where
  hash : BlobHash
  bytes : Bytes
  stage : PutStage
  deriving DecidableEq

inductive PutEvent
  | probe
  | verify
  | create (unique : JsString)
  | write (count : ℕ)
  | rename

/-- The temporary file a write has open. -/
def Put.temporary (put : Put) : Option BlobPath :=
  match put.stage with
  | .writing temporary _ => some temporary
  | _ => none

section
variable (address : BlobAddress)

/-- One step of a write; `none` when it awaits something else or the step fails. -/
def putStep (tree : BlobTree) (put : Put) : PutEvent → Option (Put × BlobTree)
  | .probe =>
    match put.stage with
    | .queued =>
      let stage : PutStage :=
        if (tree.lookup (pathForHash address put.hash)).isSome then .verifying else .creating
      some ({ put with stage }, tree)
    | _ => none
  | .verify =>
    match put.stage, tree.lookup (pathForHash address put.hash) with
    | .verifying, some bytes =>
      if address.hashBlob bytes = put.hash then some ({ put with stage := .publishing }, tree)
      else none
    | _, _ => none
  | .create unique =>
    match put.stage, tree.lookup (temporaryPath address put.hash unique) with
    | .creating, none =>
      let temporary := temporaryPath address put.hash unique
      some ({ put with stage := .writing temporary 0 }, tree.insert temporary [])
    | _, _ => none
  | .write count =>
    match put.stage with
    | .writing temporary written =>
      if written < count ∧ count ≤ put.bytes.length then
        some ({ put with stage := .writing temporary count },
          tree.insert temporary (put.bytes.take count))
      else none
    | _ => none
  | .rename =>
    match put.stage with
    | .writing temporary written =>
      if written = put.bytes.length then
        (tree.lookup temporary).map fun bytes =>
          ({ put with stage := .publishing },
            (tree.erase temporary).insert (pathForHash address put.hash) bytes)
      else none
    | _ => none

/-- What a failed write leaves of its temporary file. -/
def discardTemporary (tree : BlobTree) (put : Put) : BlobTree :=
  match put.temporary with
  | some temporary => tree.erase temporary
  | none => tree

end

section
variable {address : BlobAddress} {tree tree' : BlobTree} {hash : BlobHash} {bytes : Bytes}

theorem text_injective : Function.Injective address.text := by
  intro left right heq
  have hleft := (address.parse_eq_some _ left).mpr rfl
  have hright := (address.parse_eq_some _ right).mpr heq.symm
  exact some.inj (hleft.symm.trans hright)

theorem pathForHash_injective : Function.Injective (pathForHash address) := by
  intro left right heq
  have hname : address.text left = address.text right := congrArg BlobPath.name heq
  exact text_injective hname

/-- No blob has its content address in a temporary file. -/
theorem temporaryPath_ne (other : BlobHash) (unique : JsString) :
    temporaryPath address other unique ≠ pathForHash address hash := by
  intro heq
  have hname : dot :: address.text other ++ dot :: unique = address.text hash :=
    congrArg BlobPath.name heq
  apply address.text_plain hash
  rw [← hname]
  exact List.mem_cons_self

/-- The files of a walk end in the digest of a blob when they are under its address. -/
theorem text_suffix (directory : JsString) :
    address.text hash <:+ absolutePath directory (pathForHash address hash) := by
  refine ⟨directory ++ slash :: (address.text hash).take 2 ++ [slash], ?_⟩
  simp [absolutePath, pathForHash]

theorem Settled.kept (h : Settled address tree hash)
    (hkept : tree'.lookup (pathForHash address hash) = tree.lookup (pathForHash address hash)) :
    Settled address tree' hash := by
  obtain ⟨found, hlookup, hdigest⟩ := h
  exact ⟨found, hkept.trans hlookup, hdigest⟩

theorem settled_insert (h : address.hashBlob bytes = hash) :
    Settled address (tree.insert (pathForHash address hash) bytes) hash :=
  ⟨bytes, lookup_insert tree, h⟩

end

variable {address : BlobAddress} {tree tree' : BlobTree} {put put' : Put} {own : Option BlobPath}
  {hash : BlobHash} {bytes : Bytes}

/-- The files a write relies on: what it wrote so far, or the blob under its address. -/
def PutHolds (address : BlobAddress) (tree : BlobTree) (put : Put) : Prop :=
  match put.stage with
  | .writing temporary written =>
    (∃ unique, temporary = temporaryPath address put.hash unique) ∧
      tree.lookup temporary = some (put.bytes.take written)
  | .publishing => Settled address tree put.hash
  | _ => True

theorem PutHolds.writing {temporary : BlobPath} {written : ℕ}
    (h : PutHolds address tree ⟨hash, bytes, .writing temporary written⟩) :
    ∃ unique, temporary = temporaryPath address hash unique ∧
      tree.lookup temporary = some (bytes.take written) := by
  obtain ⟨⟨unique, hpath⟩, hwritten⟩ := h
  exact ⟨unique, hpath, hwritten⟩

/-- The effect of a write on files that are not its own. -/
structure Undisturbed (address : BlobAddress) (own : Option BlobPath) (tree tree' : BlobTree) :
    Prop where
  settled : ∀ hash, Settled address tree hash → Settled address tree' hash
  temporaries : ∀ hash unique, some (temporaryPath address hash unique) ≠ own →
    ∀ bytes, tree.lookup (temporaryPath address hash unique) = some bytes →
      tree'.lookup (temporaryPath address hash unique) = some bytes

theorem undisturbed_refl (own : Option BlobPath) : Undisturbed address own tree tree :=
  ⟨fun _ h => h, fun _ _ _ _ h => h⟩

theorem undisturbed_write {unique : JsString}
    (hkept : ∀ path ≠ temporaryPath address hash unique, tree'.lookup path = tree.lookup path) :
    Undisturbed address (some (temporaryPath address hash unique)) tree tree' := by
  constructor
  · intro other hother
    exact hother.kept (hkept _ (temporaryPath_ne hash unique).symm)
  · intro other otherUnique hne found hlookup
    exact (hkept _ fun heq => hne (congrArg some heq)).trans hlookup

/-- A rename onto the content address of the bytes it publishes. -/
theorem undisturbed_publish (hdigest : address.hashBlob bytes = hash) :
    Undisturbed address own tree (tree.insert (pathForHash address hash) bytes) := by
  constructor
  · intro other hother
    by_cases hsame : other = hash
    · rw [hsame]
      exact settled_insert hdigest
    · have hpath : pathForHash address other ≠ pathForHash address hash :=
        fun heq => hsame (pathForHash_injective heq)
      exact hother.kept (lookup_insert_ne hpath)
  · intro other unique _ found hlookup
    rw [lookup_insert_ne (temporaryPath_ne other unique)]
    exact hlookup

theorem Undisturbed.trans {tree'' : BlobTree} (h : Undisturbed address own tree tree')
    (h' : Undisturbed address own tree' tree'') : Undisturbed address own tree tree'' := by
  constructor
  · intro hash hsettled
    exact h'.settled hash (h.settled hash hsettled)
  · intro hash unique hne bytes hlookup
    exact h'.temporaries hash unique hne bytes (h.temporaries hash unique hne bytes hlookup)

/-- What a step of a write keeps, and what it does to the files. -/
structure PutStepped (address : BlobAddress) (tree tree' : BlobTree) (put put' : Put) : Prop where
  hash : put'.hash = put.hash
  bytes : put'.bytes = put.bytes
  holds : PutHolds address tree' put'
  undisturbed : Undisturbed address put.temporary tree tree'
  temporary : ∀ path, put'.temporary = some path →
    put.temporary = some path ∨ tree.lookup path = none

theorem putStep_create {unique : JsString}
    (h : putStep address tree put (.create unique) = some (put', tree')) :
    PutStepped address tree tree' put put' := by
  obtain ⟨hash, bytes, stage⟩ := put
  cases stage with
  | creating =>
    cases habsent : tree.lookup (temporaryPath address hash unique) with
    | some found => simp [putStep, habsent] at h
    | none =>
      simp only [putStep, habsent, some.injEq, Prod.mk.injEq] at h
      obtain ⟨rfl, rfl⟩ := h
      refine ⟨rfl, rfl, ⟨⟨unique, rfl⟩, lookup_insert tree⟩, ?_, ?_⟩
      · have hown : Undisturbed address (some (temporaryPath address hash unique)) tree
            (tree.insert (temporaryPath address hash unique) []) :=
          undisturbed_write fun _ => lookup_insert_ne
        refine ⟨hown.settled, ?_⟩
        intro other otherUnique _ found hlookup
        have hpath : temporaryPath address other otherUnique ≠
            temporaryPath address hash unique := by
          intro heq
          rw [heq, habsent] at hlookup
          cases hlookup
        rw [lookup_insert_ne hpath]
        exact hlookup
      · intro path hpath
        cases hpath
        exact Or.inr habsent
  | _ => simp [putStep] at h

theorem putStep_write {count : ℕ} (hholds : PutHolds address tree put)
    (h : putStep address tree put (.write count) = some (put', tree')) :
    PutStepped address tree tree' put put' := by
  obtain ⟨hash, bytes, stage⟩ := put
  cases stage with
  | writing temporary written =>
    obtain ⟨unique, rfl, _⟩ := hholds.writing
    by_cases hmore : written < count ∧ count ≤ bytes.length
    · simp only [putStep, hmore, and_self, if_true, some.injEq, Prod.mk.injEq] at h
      obtain ⟨rfl, rfl⟩ := h
      refine ⟨rfl, rfl, ⟨⟨unique, rfl⟩, lookup_insert tree⟩, ?_, ?_⟩
      · exact undisturbed_write fun _ => lookup_insert_ne
      · intro path hpath
        exact Or.inl hpath
    · simp [putStep, hmore] at h
  | _ => simp [putStep] at h

theorem putStep_rename (hdigest : address.hashBlob put.bytes = put.hash)
    (hholds : PutHolds address tree put)
    (h : putStep address tree put .rename = some (put', tree')) :
    PutStepped address tree tree' put put' := by
  obtain ⟨hash, bytes, stage⟩ := put
  cases stage with
  | writing temporary written =>
    obtain ⟨unique, rfl, hwritten⟩ := hholds.writing
    by_cases hfull : written = bytes.length
    · subst hfull
      -- The temporary file holds the whole blob by now.
      have hwhole : tree.lookup (temporaryPath address hash unique) = some bytes := by
        simpa using hwritten
      simp only [putStep, if_true, hwhole, map_some, some.injEq,
        Prod.mk.injEq] at h
      obtain ⟨rfl, rfl⟩ := h
      have herase : Undisturbed address (some (temporaryPath address hash unique)) tree
          (tree.erase (temporaryPath address hash unique)) :=
        undisturbed_write fun _ => lookup_erase_ne
      refine ⟨rfl, rfl, settled_insert hdigest, herase.trans (undisturbed_publish hdigest), ?_⟩
      intro path hpath
      cases hpath
    · simp [putStep, hfull] at h
  | _ => simp [putStep] at h

theorem putStep_spec {event : PutEvent} (hdigest : address.hashBlob put.bytes = put.hash)
    (hholds : PutHolds address tree put)
    (h : putStep address tree put event = some (put', tree')) :
    PutStepped address tree tree' put put' := by
  cases event with
  | probe =>
    obtain ⟨hash, bytes, stage⟩ := put
    cases stage with
    | queued =>
      simp only [putStep, some.injEq, Prod.mk.injEq] at h
      obtain ⟨rfl, rfl⟩ := h
      cases htree : (tree.lookup (pathForHash address hash)).isSome with
      | true => exact ⟨rfl, rfl, trivial, undisturbed_refl _, fun _ hpath => by cases hpath⟩
      | false => exact ⟨rfl, rfl, trivial, undisturbed_refl _, fun _ hpath => by cases hpath⟩
    | _ => simp [putStep] at h
  | verify =>
    obtain ⟨hash, bytes, stage⟩ := put
    cases stage with
    | verifying =>
      cases hfound : tree.lookup (pathForHash address hash) with
      | none => simp [putStep, hfound] at h
      | some found =>
        by_cases hmatch : address.hashBlob found = hash
        · simp only [putStep, hfound, hmatch, if_true, some.injEq, Prod.mk.injEq] at h
          obtain ⟨rfl, rfl⟩ := h
          have hsettled : Settled address tree hash := ⟨found, hfound, hmatch⟩
          exact ⟨rfl, rfl, hsettled, undisturbed_refl _, fun _ hpath => by cases hpath⟩
        · simp [putStep, hfound, hmatch] at h
    | _ => simp [putStep] at h
  | create unique => exact putStep_create h
  | write count => exact putStep_write hholds h
  | rename => exact putStep_rename hdigest hholds h

/-- A failed write removes nothing but its own temporary file. -/
theorem undisturbed_discard (hholds : PutHolds address tree put) :
    Undisturbed address put.temporary tree (discardTemporary tree put) := by
  obtain ⟨hash, bytes, stage⟩ := put
  cases stage with
  | writing temporary written =>
    obtain ⟨unique, rfl, _⟩ := hholds.writing
    exact undisturbed_write fun _ => lookup_erase_ne
  | _ => exact undisturbed_refl _

/-- A write whose temporary file is not the one that changed still holds. -/
theorem PutHolds.undisturbed (h : PutHolds address tree put)
    (hkept : Undisturbed address own tree tree')
    (hother : ∀ path, put.temporary = some path → some path ≠ own) :
    PutHolds address tree' put := by
  obtain ⟨hash, bytes, stage⟩ := put
  cases stage with
  | writing temporary written =>
    obtain ⟨unique, rfl, hwritten⟩ := h.writing
    refine ⟨⟨unique, rfl⟩, ?_⟩
    exact hkept.temporaries hash unique (hother _ rfl) _ hwritten
  | publishing => exact hkept.settled hash h
  | _ => trivial

end Havemind.BlobStore
