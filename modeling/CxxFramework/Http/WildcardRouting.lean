import CxxFramework.Http.HTTPDispatcher
import Mathlib.Data.List.Sort

/-!
# Wildcards

`WildcardPathMapper` cuts the `/*` off its pattern and compares what is left with the start of the
path. The `/` is cut off too, so that the pattern without it is matched as well, but then nothing
says that a part of the path ends there: `/admin/*` is for `/administrator`.

## Main definitions

* `HTTPDispatcher.Under` — the paths that a wildcard is for.
* `HTTPDispatcher.Routes` — a request is dispatched by the text of the pattern.
-/

namespace CxxFramework.Net.HTTPDispatcher

open CxxFramework.Core HTTPPathMapper

/-- The path is `P`, or starts with `P/`. -/
def Under (P path : Bytes) : Prop := path = P ∨ P ++ ascii "/" <+: path

instance (P path : Bytes) : Decidable (Under P path) := inferInstanceAs (Decidable (_ ∨ _))

variable {mapping : List HTTPMapping}

/-- A request that is given to the mapper of `P/*` is under `P`, and one that is given to the mapper
of `*.ext` ends with `.ext`. What ends with `/*` is a wildcard, even if it starts with `*.`. -/
structure Routes (sDispatcher : HTTPDispatcher mapping) (request : HTTPPacket) : Prop where
  wildcard : ∀ m ∈ mapping, ∀ P, m.path = P ++ ascii "/*" →
    sDispatcher.mapper request = some (buildPathMatcher m) →
      ∃ path, request.fRelativeURI = some path ∧ Under P path
  extension : ∀ m ∈ mapping, ∀ ext, m.path = ascii "*." ++ ext → ¬ ascii "/*" <:+ m.path →
    sDispatcher.mapper request = some (buildPathMatcher m) →
      ∃ path, request.fRelativeURI = some path ∧ ascii "." ++ ext <:+ path

/-- The table has the path of the request as it is. -/
def ExactFor (mapping : List HTTPMapping) (request : HTTPPacket) : Prop :=
  ∃ pattern fFunc, .exact pattern fFunc ∈ mapping.map buildPathMatcher ∧
    request.fRelativeURI = some pattern

/-- The first wildcard of the table that matches the path. -/
def firstWildcard (sDispatcher : HTTPDispatcher mapping) (request : HTTPPacket) :
    Option HTTPPathMapper :=
  sDispatcher.fMappers.find? fun mapper =>
    mapper.itsType = 1 ∧ mapper.isMatch request.fRelativeURI

/-! ## The patterns -/

theorem buildPathMatcher_wildcard {m : HTTPMapping} {P : Bytes} (hm : m.path = P ++ ascii "/*") :
    buildPathMatcher m = .wildcard P m.func := by
  have hlen : m.path.length - 2 = P.length := by rw [hm]; simp [ascii]
  have hsuffix : 2 ≤ m.path.length ∧ m.path.drop (m.path.length - 2) = ascii "/*" := by
    rw [hlen, hm]
    simp [ascii]
  simp only [buildPathMatcher, if_pos hsuffix]
  rw [hlen, hm, List.take_left]

theorem path_of_wildcard {m : HTTPMapping} {P : Bytes} {fFunc : Nat}
    (hm : buildPathMatcher m = .wildcard P fFunc) : m.path = P ++ ascii "/*" := by
  simp only [buildPathMatcher] at hm
  split_ifs at hm with hsuffix
  obtain ⟨rfl, -⟩ := HTTPPathMapper.wildcard.inj hm
  rw [← hsuffix.2, List.take_append_drop]

theorem buildPathMatcher_extension {m : HTTPMapping} {ext : Bytes}
    (hm : m.path = ascii "*." ++ ext) (hsuffix : ¬ ascii "/*" <:+ m.path) :
    buildPathMatcher m = .extension (ascii "." ++ ext) m.func := by
  have hwildcard : ¬ (2 ≤ m.path.length ∧ m.path.drop (m.path.length - 2) = ascii "/*") :=
    fun h => hsuffix ⟨_, (congrArg _ h.2.symm).trans (List.take_append_drop _ _)⟩
  have hprefix : 2 ≤ m.path.length ∧ m.path.take 2 = ascii "*." := by
    rw [hm]
    simp [ascii]
  simp only [buildPathMatcher, if_neg hwildcard, if_pos hprefix]
  rw [hm]
  rfl

variable {sDispatcher : HTTPDispatcher mapping} {request : HTTPPacket} {P path : Bytes}
  {fFunc : Nat}

theorem isMatch_wildcard : (HTTPPathMapper.wildcard P fFunc).isMatch request.fRelativeURI ↔
    ∃ path, request.fRelativeURI = some path ∧ P <+: path := by
  rw [isMatch, Option.any_eq_true]
  refine exists_congr fun path => and_congr_right fun _ => ?_
  rw [decide_eq_true_eq, List.prefix_iff_eq_take, eq_comm]

theorem suffix_of_isMatch (h : (HTTPPathMapper.extension P fFunc).isMatch request.fRelativeURI) :
    ∃ path, request.fRelativeURI = some path ∧ P <:+ path := by
  rw [isMatch, Option.any_eq_true] at h
  obtain ⟨path, hpath, h⟩ := h
  have hend := (of_decide_eq_true h).2
  exact ⟨path, hpath, hend ▸ List.drop_suffix _ _⟩

/-- The mappers of extensions keep to their patterns, so it is the wildcard that matters. -/
theorem routes_iff_wildcard : Routes sDispatcher request ↔
    ∀ P fFunc, sDispatcher.mapper request = some (.wildcard P fFunc) →
      ∃ path, request.fRelativeURI = some path ∧ Under P path := by
  constructor
  · intro h P fFunc hmapper
    obtain ⟨m, hm, hbuild⟩ := List.mem_map.mp (mapper_answers hmapper).mem
    exact h.wildcard m hm P (path_of_wildcard hbuild) (hbuild ▸ hmapper)
  · intro h
    constructor
    · intro m _ P hpath hmapper
      rw [buildPathMatcher_wildcard hpath] at hmapper
      exact h P m.func hmapper
    · intro m _ ext hpath hsuffix hmapper
      rw [buildPathMatcher_extension hpath hsuffix] at hmapper
      exact suffix_of_isMatch (mapper_answers hmapper).isMatch

/-- The mapper of a request is a wildcard just if no mapper is for the whole path and a wildcard
matches it, and then it is the first one. -/
theorem mapper_eq_wildcard_iff : sDispatcher.mapper request = some (.wildcard P fFunc) ↔
    ¬ ExactFor mapping request ∧
      sDispatcher.firstWildcard request = some (.wildcard P fFunc) := by
  have hforward : ∀ P fFunc, sDispatcher.mapper request = some (.wildcard P fFunc) →
      ¬ ExactFor mapping request ∧
        sDispatcher.firstWildcard request = some (.wildcard P fFunc) := by
    intro P fFunc hmapper
    have hanswers := mapper_answers hmapper
    constructor
    · rintro ⟨pattern, func, hmem, hrequest⟩
      have hfirst := hanswers.first _ hmem (by simp [isMatch, hrequest])
      exact absurd hfirst (by simp [classRank])
    · obtain ⟨hmatch, before, after, hsplit, hbefore⟩ := List.find?_eq_some_iff_append.mp hmapper
      refine List.find?_eq_some_iff_append.mpr
        ⟨by simp [itsType, hmatch], before, after, hsplit, ?_⟩
      intro other hother
      have hnot := hbefore other hother
      simp_all
  refine ⟨hforward P fFunc, ?_⟩
  rintro ⟨hexact, hfirst⟩
  have hfound := List.find?_some hfirst
  have hmatch : (HTTPPathMapper.wildcard P fFunc).isMatch request.fRelativeURI := by
    simpa [itsType] using hfound
  have hmem := List.mem_of_find?_eq_some hfirst
  have hsome : (sDispatcher.mapper request).isSome := List.find?_isSome.mpr ⟨_, hmem, hmatch⟩
  obtain ⟨mapper, hmapper⟩ := Option.isSome_iff_exists.mp hsome
  have hanswers := mapper_answers hmapper
  have hrank := hanswers.first _ (sDispatcher.perm.subset hmem) hmatch
  cases mapper with
  | exact pattern func =>
    refine absurd ⟨pattern, func, hanswers.mem, ?_⟩ hexact
    simpa [isMatch] using hanswers.isMatch
  | wildcard pattern func =>
    rw [hmapper, ← (hforward pattern func hmapper).2, hfirst]
  | extension pattern func => exact absurd hrank (by simp [classRank])
  | default func => exact absurd hrank (by simp [classRank])

/-- There is an order of the table in which a wildcard stands before the others. -/
theorem exists_firstWildcard {m : HTTPMapping} (hm : m ∈ mapping) (hpath : m.path = P ++ ascii "/*")
    (hmatch : (buildPathMatcher m).isMatch request.fRelativeURI) :
    ∃ sDispatcher : HTTPDispatcher mapping,
      sDispatcher.firstWildcard request = some (.wildcard P m.func) := by
  let le : HTTPPathMapper → HTTPPathMapper → Prop := fun a b => classRank a ≤ classRank b
  have : DecidableRel le := fun a b => Nat.decLe _ _
  have : Std.Total le := ⟨fun a b => Nat.le_total _ _⟩
  have : IsTrans _ le := ⟨fun a b c => Nat.le_trans⟩
  rw [buildPathMatcher_wildcard hpath] at hmatch
  have hmem : .wildcard P m.func ∈ mapping.map buildPathMatcher :=
    buildPathMatcher_wildcard hpath ▸ List.mem_map_of_mem hm
  let others := (mapping.map buildPathMatcher).erase (.wildcard P m.func)
  let sDispatcher : HTTPDispatcher mapping := {
    fMappers := (HTTPPathMapper.wildcard P m.func :: others).insertionSort le
    perm := (List.perm_insertionSort le _).trans (List.perm_cons_erase hmem).symm
    sorted := (List.pairwise_insertionSort le _).imp (comparePriority_le_iff _ _).mpr }
  refine ⟨sDispatcher, List.find?_eq_some_iff_append.mpr ⟨by simp [itsType, hmatch], _, _,
    List.insertionSort_cons_eq_take_drop le _ _, fun other hother => ?_⟩⟩
  -- What is inserted before a wildcard is for whole paths.
  have hless : ¬ 1 ≤ classRank other := by
    simpa [le, classRank] using List.mem_takeWhile_imp hother
  cases other <;> simp_all [itsType, classRank]

/-- A request is dispatched by the text of the patterns just if the table has its path, or the
first wildcard that its path starts with is one that it is under. In every order of the table it is
just if the table has its path, or every wildcard that its path starts with is one that it is
under. -/
theorem routes_iff (mapping : List HTTPMapping) (request : HTTPPacket) :
    (∀ sDispatcher : HTTPDispatcher mapping, Routes sDispatcher request ↔
      ExactFor mapping request ∨ ∀ P fFunc,
        sDispatcher.firstWildcard request = some (.wildcard P fFunc) →
          ∃ path, request.fRelativeURI = some path ∧ Under P path) ∧
    ((∀ sDispatcher : HTTPDispatcher mapping, Routes sDispatcher request) ↔
      ExactFor mapping request ∨ ∀ m ∈ mapping, ∀ P, m.path = P ++ ascii "/*" →
        ∀ path, request.fRelativeURI = some path → P <+: path → Under P path) := by
  have hone : ∀ sDispatcher : HTTPDispatcher mapping, Routes sDispatcher request ↔
      ExactFor mapping request ∨ ∀ P fFunc,
        sDispatcher.firstWildcard request = some (.wildcard P fFunc) →
          ∃ path, request.fRelativeURI = some path ∧ Under P path := by
    intro sDispatcher
    rw [routes_iff_wildcard]
    simp only [mapper_eq_wildcard_iff]
    by_cases hexact : ExactFor mapping request
    · simp [hexact]
    · simp only [hexact, not_false_eq_true, true_and, false_or]
  refine ⟨hone, ?_⟩
  constructor
  · intro hall
    by_cases hexact : ExactFor mapping request
    · exact .inl hexact
    refine .inr fun m hm P hpath path hrequest hstart => ?_
    have hmatch : (buildPathMatcher m).isMatch request.fRelativeURI := by
      rw [buildPathMatcher_wildcard hpath, isMatch_wildcard]
      exact ⟨path, hrequest, hstart⟩
    obtain ⟨sDispatcher, hfirst⟩ := exists_firstWildcard hm hpath hmatch
    have hunder := ((hone sDispatcher).mp (hall sDispatcher)).resolve_left hexact P m.func hfirst
    obtain ⟨path', hrequest', hunder⟩ := hunder
    obtain rfl := Option.some.inj (hrequest.symm.trans hrequest')
    exact hunder
  · intro h sDispatcher
    refine (hone sDispatcher).mpr (h.imp_right fun hall P fFunc hfirst => ?_)
    have hfound := List.find?_some hfirst
    have hmatch : (HTTPPathMapper.wildcard P fFunc).isMatch request.fRelativeURI := by
      simpa [itsType] using hfound
    obtain ⟨path, hrequest, hstart⟩ := isMatch_wildcard.mp hmatch
    have hmem := sDispatcher.perm.subset (List.mem_of_find?_eq_some hfirst)
    obtain ⟨m, hm, hbuild⟩ := List.mem_map.mp hmem
    exact ⟨path, hrequest, hall m hm P (path_of_wildcard hbuild) path hrequest hstart⟩

/-- The mapper of `/admin/*` is given `/administrator`. -/
theorem administrator_not_routes :
    let mapping : List HTTPMapping := [⟨ascii "/admin/*", 0⟩]
    let request : HTTPPacket :=
      { HTTPPacket.ofHeader [] [] with fRelativeURI := some (ascii "/administrator") }
    ∃ sDispatcher : HTTPDispatcher mapping, ¬ Routes sDispatcher request := by
  refine ⟨⟨[.wildcard (ascii "/admin") 0], by decide, List.pairwise_singleton _ _⟩, fun h => ?_⟩
  obtain ⟨path, hpath, hunder⟩ := h.wildcard ⟨ascii "/admin/*", 0⟩ List.mem_cons_self
    (ascii "/admin") (by decide) (by decide)
  obtain rfl := Option.some.inj hpath
  exact absurd hunder (by decide)

end CxxFramework.Net.HTTPDispatcher
