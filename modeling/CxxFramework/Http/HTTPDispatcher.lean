import CxxFramework.Http.HTTPPacket

/-!
# The dispatcher

`HTTPDispatcher` finds the function that answers a request by the path of the request. A
mapping has a path that is matched exactly, as a wildcard `xxx/*`, as an extension `*.xxx`
or, for the path `/`, by default.

A function is given by its index; what it does to the packets is an input of the call. Of
the response, it can set the version, the status and the body: a header that it creates is
replaced when the response is sent.
-/

namespace CxxFramework.Net

open CxxFramework.Core

/-- What a call of a mapped function returns and leaves in the packets. -/
structure CGIResult where
  theErr : CF_Error
  request : HTTPPacket
  fVersion : HTTPVersion
  fStatusCode : HTTPStatusCode
  fHTTPBody : Option Bytes

abbrev CF_CGIFunction := HTTPPacket → HTTPPacket → CGIResult

/-- An entry of the mapping table; its null entry ends the table. -/
structure HTTPMapping where
  path : Bytes
  func : Nat
deriving DecidableEq, Repr

/-- A path mapper with its pattern. -/
inductive HTTPPathMapper where
  | exact (pattern : Bytes) (fFunc : Nat)
  | wildcard (pattern : Bytes) (fFunc : Nat)
  | extension (pattern : Bytes) (fFunc : Nat)
  | default (fFunc : Nat)
deriving DecidableEq, Repr

namespace HTTPPathMapper

/-- `BuildPathMatcher` -/
def buildPathMatcher (mapping : HTTPMapping) : HTTPPathMapper :=
  let len := mapping.path.length
  if 2 ≤ len ∧ mapping.path.drop (len - 2) = ascii "/*" then
    .wildcard (mapping.path.take (len - 2)) mapping.func
  else if 2 ≤ len ∧ mapping.path.take 2 = ascii "*." then
    .extension (mapping.path.drop 1) mapping.func
  else if mapping.path = ascii "/" then .default mapping.func
  else .exact mapping.path mapping.func

/-- `ItsType` -/
def itsType : HTTPPathMapper → UInt32
  | .exact _ _ => 0
  | .wildcard _ _ => 1
  | .extension _ _ => 2
  | .default _ => 4

/-- `ComparePriority`, the difference of two `UInt32` as an `int`. -/
def comparePriority (aMapper bMapper : HTTPPathMapper) : Int32 :=
  (aMapper.itsType - bMapper.itsType).toInt32

def fFunc : HTTPPathMapper → Nat
  | .exact _ fFunc | .wildcard _ fFunc | .extension _ fFunc | .default fFunc => fFunc

/-- `Match`. A part of the null path is null too, and equal to no pattern. -/
def isMatch : HTTPPathMapper → StrPtrLen → Bool
  | .exact pattern _, path => path = some pattern
  | .wildcard pattern _, path => path.any fun path => path.take pattern.length = pattern
  | .extension pattern _, path => path.any fun path =>
      pattern.length ≤ path.length ∧ path.drop (path.length - pattern.length) = pattern
  | .default _, _ => true

end HTTPPathMapper

/-- The mappers of a table, sorted by `qsort`, which leaves open how it orders mappers of
one type. -/
structure HTTPDispatcher (mapping : List HTTPMapping) where
  fMappers : List HTTPPathMapper
  perm : fMappers.Perm (mapping.map HTTPPathMapper.buildPathMatcher)
  sorted : fMappers.Pairwise fun a b => HTTPPathMapper.comparePriority a b ≤ 0

namespace HTTPDispatcher

variable {mapping : List HTTPMapping}

/-- The first mapper that matches the path of the request. -/
def mapper (sDispatcher : HTTPDispatcher mapping) (request : HTTPPacket) : Option HTTPPathMapper :=
  sDispatcher.fMappers.find? (·.isMatch request.fRelativeURI)

/-- `Dispatch`: the function called, the error and the packets after it. -/
def dispatch (sDispatcher : HTTPDispatcher mapping) (cgi : Nat → CF_CGIFunction)
    (request response : HTTPPacket) : Option Nat × CF_Error × HTTPPacket × HTTPPacket :=
  match sDispatcher.mapper request with
  | none => (none, CF_FileNotFound, request, response)
  | some mapper =>
    let result := cgi mapper.fFunc request response
    (some mapper.fFunc, result.theErr, result.request,
      { response with
        fVersion := result.fVersion
        fStatusCode := result.fStatusCode
        fHTTPBody := result.fHTTPBody })

/-- Some mapping of the table is for the path of the request. -/
def Mapped (mapping : List HTTPMapping) (request : HTTPPacket) : Prop :=
  ∃ m ∈ mapping, (HTTPPathMapper.buildPathMatcher m).isMatch request.fRelativeURI

instance (request : HTTPPacket) : Decidable (Mapped mapping request) :=
  inferInstanceAs (Decidable (∃ m ∈ mapping, _))

/-- A function is called exactly where a mapping of the table is for the path. -/
theorem dispatch_isSome_iff (sDispatcher : HTTPDispatcher mapping) (cgi : Nat → CF_CGIFunction)
    (request response : HTTPPacket) :
    (sDispatcher.dispatch cgi request response).1.isSome ↔ Mapped mapping request := by
  have hfind : (sDispatcher.mapper request).isSome ↔ Mapped mapping request := by
    unfold mapper Mapped
    simp only [List.find?_isSome, sDispatcher.perm.mem_iff, List.mem_map]
    constructor
    · rintro ⟨_, ⟨m, hm, rfl⟩, hmatch⟩
      exact ⟨m, hm, hmatch⟩
    · rintro ⟨m, hm, hmatch⟩
      exact ⟨_, ⟨m, hm, rfl⟩, hmatch⟩
  rw [← hfind]
  unfold dispatch
  cases sDispatcher.mapper request with
  | none => rfl
  | some mapper => rfl

/-- Where no function is called, the packets are left as they are. -/
theorem dispatch_eq_of_none {sDispatcher : HTTPDispatcher mapping} {cgi : Nat → CF_CGIFunction}
    {request response : HTTPPacket} (h : (sDispatcher.dispatch cgi request response).1 = none) :
    sDispatcher.dispatch cgi request response = (none, CF_FileNotFound, request, response) := by
  unfold dispatch at h ⊢
  cases hmapper : sDispatcher.mapper request with
  | none => rfl
  | some mapper => simp [hmapper] at h

@[simp] theorem dispatch_type (sDispatcher : HTTPDispatcher mapping) (cgi : Nat → CF_CGIFunction)
    (request response : HTTPPacket) :
    (sDispatcher.dispatch cgi request response).2.2.2.fHTTPType = response.fHTTPType := by
  unfold dispatch
  cases sDispatcher.mapper request with
  | none => rfl
  | some mapper => rfl

/-! ## The mapper that answers -/

/-- The classes of mappers, the first one to be asked first. -/
def classRank : HTTPPathMapper → Nat
  | .exact _ _ => 0
  | .wildcard _ _ => 1
  | .extension _ _ => 2
  | .default _ => 3

/-- The difference has the sign that `qsort` needs. -/
theorem comparePriority_le_iff (a b : HTTPPathMapper) :
    HTTPPathMapper.comparePriority a b ≤ 0 ↔ classRank a ≤ classRank b := by
  cases a <;> cases b <;>
    simp only [HTTPPathMapper.comparePriority, HTTPPathMapper.itsType, classRank] <;> decide

/-- The mapper matches the path of the request, and no mapper of the table that matches is of
a class to be asked earlier. -/
structure Answers (mapping : List HTTPMapping) (request : HTTPPacket) (mapper : HTTPPathMapper) :
    Prop where
  mem : mapper ∈ mapping.map HTTPPathMapper.buildPathMatcher
  isMatch : mapper.isMatch request.fRelativeURI
  first : ∀ other ∈ mapping.map HTTPPathMapper.buildPathMatcher,
    other.isMatch request.fRelativeURI → classRank mapper ≤ classRank other

/-- The first mapper of the sorted list that matches is of the first class of those that do. -/
theorem mapper_answers {sDispatcher : HTTPDispatcher mapping} {request : HTTPPacket}
    {mapper : HTTPPathMapper} (h : sDispatcher.mapper request = some mapper) :
    Answers mapping request mapper := by
  obtain ⟨hmatch, before, after, hsplit, hbefore⟩ := List.find?_eq_some_iff_append.mp h
  have hsorted := sDispatcher.sorted
  rw [hsplit, List.pairwise_append, List.pairwise_cons] at hsorted
  refine ⟨sDispatcher.perm.subset (List.mem_of_find?_eq_some h), hmatch, ?_⟩
  intro other hmem hother
  have hmem := sDispatcher.perm.symm.subset hmem
  rw [hsplit, List.mem_append, List.mem_cons] at hmem
  rcases hmem with hmem | rfl | hmem
  · have hnot := hbefore other hmem
    simp [hother] at hnot
  · exact le_rfl
  · exact (comparePriority_le_iff mapper other).mp (hsorted.2.1.1 other hmem)

/-- A request is answered by a mapper of the first class that matches, and its error is that
of the function called. Only a request that no mapping is for calls no function, which is
answered by `CF_FileNotFound`. -/
theorem dispatch_answers (sDispatcher : HTTPDispatcher mapping) (cgi : Nat → CF_CGIFunction)
    (request response : HTTPPacket) :
    (∃ mapper, Answers mapping request mapper ∧
      (sDispatcher.dispatch cgi request response).1 = some mapper.fFunc ∧
      (sDispatcher.dispatch cgi request response).2.1 =
        (cgi mapper.fFunc request response).theErr) ∨
    ((∀ m ∈ mapping, ¬ (HTTPPathMapper.buildPathMatcher m).isMatch request.fRelativeURI) ∧
      (sDispatcher.dispatch cgi request response).1 = none ∧
      (sDispatcher.dispatch cgi request response).2.1 = CF_FileNotFound) := by
  unfold dispatch
  cases hmapper : sDispatcher.mapper request with
  | some mapper => exact .inl ⟨mapper, mapper_answers hmapper, rfl, rfl⟩
  | none =>
    refine .inr ⟨fun m hm hmatch => ?_, rfl, rfl⟩
    have hnone := List.find?_eq_none.mp hmapper
    have hmem := sDispatcher.perm.symm.subset (List.mem_map_of_mem hm)
    exact hnone _ hmem hmatch

/-- A function that finds no file itself. -/
def notFound : CF_CGIFunction := fun request response =>
  { theErr := CF_FileNotFound
    request
    fVersion := response.fVersion
    fStatusCode := response.fStatusCode
    fHTTPBody := response.fHTTPBody }

/-- A table with one entry is in order. -/
theorem sorted_root :
    [HTTPPathMapper.default 0].Pairwise fun a b => HTTPPathMapper.comparePriority a b ≤ 0 :=
  List.pairwise_singleton ..

/-- The table with one entry, for the path `/`. -/
def rootDispatcher : HTTPDispatcher [⟨ascii "/", 0⟩] where
  fMappers := [.default 0]
  perm := .refl _
  sorted := sorted_root

/-- The error of a function that is called may be `CF_FileNotFound` too. -/
theorem mapped_fileNotFound :
    (rootDispatcher.dispatch (fun _ => notFound) (.ofHeader [] []) (.ofHeader [] [])).2.1 =
        CF_FileNotFound ∧
      Mapped [⟨ascii "/", 0⟩] (.ofHeader [] []) :=
  ⟨rfl, by decide⟩

end HTTPDispatcher

end CxxFramework.Net
