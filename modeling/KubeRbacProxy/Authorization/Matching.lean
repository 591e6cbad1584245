import KubeRbacProxy.Authorization.Encoding
import Mathlib.Data.List.Nodup

/-! What a valid endpoint pattern matches: the paths with as many segments, where a star and a
capture take any segment and other segments are the same.  The root has no segments; the matcher
compares it as one empty segment, which a single star or capture takes. -/

namespace KubeRbacProxy

open Library

/-- A pattern of an endpoint that validation accepts. -/
def Accepted (pattern : Text) : Prop :=
  ∃ cfg, validateAuthorizationConfig cfg = .ok () ∧ ∃ e ∈ cfg.endpoints, e.path = pattern

/-- A pattern segment takes a path segment: it is a star, a name in braces, or the same text. -/
def Takes (p s : Text) : Prop := p = ['*'] ∨ (∃ name, p = '{' :: (name ++ ['}'])) ∨ p = s

def captureNames (pattern : List Text) : List Text := (pattern.filter isCapture).map captureName

/-- The names of captures with the decoded segments that they take. -/
def bindings (pattern path : List Text) : List (Text × Text) :=
  (pattern.zip path).filterMap fun (p, s) =>
    if isCapture p then some (captureName p, percentDecodeStr s) else none

/-- Wherever the loop over the compared segments stands, the next capture has a valid name that is
not in the map. -/
def NeverRejected (pairs : List (Text × Text)) : Prop :=
  ∀ before p s after out, pairs = before ++ (p, s) :: after →
    matchSegments before .empty = some out → isCapture p = true →
      validCaptureName (captureName p) = true ∧ captureName p ∉ out.entries.map Prod.fst

/-- Matching is decided segment by segment, and binds every capture to the segment that it takes. -/
structure ExactMatch (pattern path : Text) : Prop where
  decided : (endpointMatch pattern path).isSome ↔
    List.Forall₂ Takes (cleanParts pattern) (cleanParts path)
  bound : ∀ captures, endpointMatch pattern path = some captures →
    captures.entries = bindings (cleanParts pattern) (cleanParts path)
  names : ∀ captures, endpointMatch pattern path = some captures →
    captures.entries.map Prod.fst = captureNames (cleanParts pattern)
  nonempty : ∀ captures, endpointMatch pattern path = some captures →
    ∀ entry ∈ captures.entries, entry.2 ≠ []
  unrejected : NeverRejected
    (((normalize pattern).splitOn '/').zip ((normalize path).splitOn '/'))

/-- The path is the root, and the pattern is a single star or capture. -/
def RootTaken (pattern path : Text) : Prop :=
  cleanParts path = [] ∧
    ∃ p, cleanParts pattern = [p] ∧ (p = ['*'] ∨ ∃ name, p = '{' :: (name ++ ['}']))

/-! ### Captures of an accepted pattern -/

theorem isCapture_iff {p : Text} : isCapture p = true ↔ ∃ name, p = '{' :: (name ++ ['}']) := by
  constructor
  · intro h
    rw [isCapture, Bool.and_eq_true, beq_iff_eq, beq_iff_eq, List.head?_eq_some_iff] at h
    obtain ⟨⟨rest, rfl⟩, hlast⟩ := h
    rcases List.eq_nil_or_concat' rest with rfl | ⟨name, c, rfl⟩
    · simp at hlast
    · rw [← List.cons_append, List.getLast?_concat] at hlast
      exact ⟨name, by rw [Option.some.inj hlast]⟩
  · rintro ⟨name, rfl⟩
    rw [isCapture, ← List.cons_append, List.getLast?_concat]
    rfl

theorem hasBrace_of_isCapture {p : Text} (h : isCapture p = true) : hasBrace p = true := by
  obtain ⟨name, rfl⟩ := isCapture_iff.mp h
  rfl

theorem takes_iff {p s : Text} : Takes p s ↔ p = ['*'] ∨ isCapture p = true ∨ p = s := by
  rw [Takes, isCapture_iff]

theorem checkSegments_distinct {i : Nat} {path : Text} {captures segments : List Text}
    (h : checkSegments i path captures segments = .ok ()) :
    (captureNames segments).Nodup ∧ ∀ name ∈ captureNames segments, name ∉ captures := by
  induction segments generalizing captures with
  | nil => simp [captureNames]
  | cons segment rest ih =>
    unfold checkSegments at h
    split at h
    · split at h
      · contradiction
      rename_i hcapture
      split at h
      · contradiction
      split at h
      · contradiction
      rename_i hnew
      rw [not_not] at hcapture
      obtain ⟨hnodup, hlater⟩ := ih h
      have hnames : captureNames (segment :: rest) = captureName segment :: captureNames rest := by
        simp [captureNames, hcapture.1]
      rw [hnames, List.nodup_cons]
      refine ⟨⟨fun hmem => hlater _ hmem List.mem_cons_self, hnodup⟩, ?_⟩
      intro name hname
      rcases List.mem_cons.mp hname with rfl | hname
      · exact hnew
      · exact fun hmem => hlater name hname (List.mem_cons_of_mem _ hmem)
    · rename_i hplain
      have hnot : isCapture segment = false :=
        Bool.eq_false_iff.mpr fun hcapture => hplain (hasBrace_of_isCapture hcapture)
      have hnames : captureNames (segment :: rest) = captureNames rest := by
        simp [captureNames, hnot]
      rw [hnames]
      exact ih h

theorem cleanParts_sublist (x : Text) : (cleanParts x).Sublist (x.splitOn '/') := by
  have hfold : ∀ (segments kept : List Text),
      (segments.foldl cleanStep kept).Sublist (kept ++ segments) := by
    intro segments
    induction segments with
    | nil => simp
    | cons segment segments ih =>
      intro kept
      have hstep : (cleanStep kept segment).Sublist (kept ++ [segment]) := by
        unfold cleanStep
        split
        · exact List.sublist_append_left _ _
        split
        · exact (List.dropLast_sublist _).trans (List.sublist_append_left _ _)
        · exact List.Sublist.refl _
      refine (ih _).trans ?_
      rw [← List.singleton_append, ← List.append_assoc]
      exact hstep.append_right _
  exact hfold _ []

/-- The captures of a pattern have valid and distinct names. -/
structure CapturesNamed (pattern : List Text) : Prop where
  valid : ∀ p ∈ pattern, isCapture p = true → validCaptureName (captureName p) = true
  distinct : (captureNames pattern).Nodup

theorem Accepted.capturesNamed {pattern : Text} (h : Accepted pattern) :
    CapturesNamed (pattern.splitOn '/') := by
  obtain ⟨cfg, hvalid, endpoint, hendpoint, rfl⟩ := h
  refine ⟨fun p hp hcapture =>
    (valid_capture hvalid hendpoint hp (hasBrace_of_isCapture hcapture)).2, ?_⟩
  unfold validateAuthorizationConfig at hvalid
  split at hvalid
  · contradiction
  rename_i hendpoints
  obtain ⟨j, hsegments⟩ := checkEndpoints_ok hendpoints endpoint hendpoint
  exact (checkSegments_distinct hsegments).1

theorem CapturesNamed.sublist {pattern other : List Text} (h : CapturesNamed pattern)
    (hsub : other.Sublist pattern) : CapturesNamed other :=
  ⟨fun p hp => h.valid p (hsub.subset hp), h.distinct.sublist ((hsub.filter _).map _)⟩

theorem CapturesNamed.compared {x : Text} (h : CapturesNamed (cleanParts x)) :
    CapturesNamed (comparedParts x) := by
  unfold comparedParts
  split
  · refine ⟨fun p hp hcapture => ?_, List.nodup_nil⟩
    rw [List.mem_singleton.mp hp] at hcapture
    contradiction
  · exact h

/-! ### The loop over the segments -/

theorem matchSegments_some {pairs : List (Text × Text)} {out captures : Captures}
    (h : matchSegments pairs out = some captures) :
    (∀ pair ∈ pairs, Takes pair.1 pair.2) ∧
      captures.entries = out.entries ++ bindings (pairs.map Prod.fst) (pairs.map Prod.snd) := by
  induction pairs generalizing out with
  | nil =>
    obtain rfl := Option.some.inj h
    simp [bindings]
  | cons pair pairs ih =>
    obtain ⟨p, s⟩ := pair
    rw [List.forall_mem_cons, takes_iff]
    unfold matchSegments at h
    split at h
    · rename_i hcapture
      split at h
      · split at h
        · rename_i next hnext
          obtain ⟨htakes, hentries⟩ := ih h
          have hinsert : next.entries = out.entries ++ [(captureName p, percentDecodeStr s)] := by
            unfold Captures.insertNew at hnext
            split at hnext
            · contradiction
            · exact (Option.some.inj hnext) ▸ rfl
          refine ⟨⟨Or.inr (Or.inl hcapture), htakes⟩, ?_⟩
          rw [hentries, hinsert]
          simp [bindings, hcapture]
        · contradiction
      · contradiction
    · rename_i hplain
      split at h
      · contradiction
      · rename_i hsame
        obtain ⟨htakes, hentries⟩ := ih h
        rw [not_and_or, not_not, not_not] at hsame
        refine ⟨⟨hsame.imp_right Or.inr, htakes⟩, ?_⟩
        rw [hentries]
        simp [bindings, hplain]

theorem matchSegments_exists {pairs : List (Text × Text)} {out : Captures}
    (hvalid : ∀ pair ∈ pairs, isCapture pair.1 = true →
      validCaptureName (captureName pair.1) = true)
    (hdistinct : (out.entries.map Prod.fst ++ captureNames (pairs.map Prod.fst)).Nodup)
    (htakes : ∀ pair ∈ pairs, Takes pair.1 pair.2) :
    (matchSegments pairs out).isSome = true := by
  induction pairs generalizing out with
  | nil => rfl
  | cons pair pairs ih =>
    obtain ⟨p, s⟩ := pair
    rw [List.forall_mem_cons] at hvalid htakes
    unfold matchSegments
    by_cases hcapture : isCapture p = true
    · have hnames : captureNames (((p, s) :: pairs).map Prod.fst) =
          captureName p :: captureNames (pairs.map Prod.fst) := by
        simp [captureNames, hcapture]
      rw [hnames] at hdistinct
      have hnew : captureName p ∉ out.entries.map Prod.fst := fun hmem =>
        (List.disjoint_of_nodup_append hdistinct) hmem List.mem_cons_self
      simp only [hcapture, if_true, hvalid.1 hcapture, dif_pos, Captures.insertNew, dif_neg hnew]
      apply ih hvalid.2 _ htakes.2
      rw [List.map_append, List.append_assoc]
      exact hdistinct
    · have hnames : captureNames (((p, s) :: pairs).map Prod.fst) =
          captureNames (pairs.map Prod.fst) := by
        simp [captureNames, hcapture]
      rw [hnames] at hdistinct
      have hsame : ¬(p ≠ ['*'] ∧ p ≠ s) := by
        rintro ⟨hstar, hne⟩
        rcases takes_iff.mp htakes.1 with h | h | h
        · exact hstar h
        · exact hcapture h
        · exact hne h
      rw [if_neg hcapture, if_neg hsame]
      exact ih hvalid.2 hdistinct htakes.2

theorem bindings_names {pattern path : List Text} (h : pattern.length = path.length) :
    (bindings pattern path).map Prod.fst = captureNames pattern := by
  induction pattern generalizing path with
  | nil => rfl
  | cons p pattern ih =>
    cases path with
    | nil => simp at h
    | cons s path =>
      have hrest : (bindings pattern path).map Prod.fst = captureNames pattern :=
        ih (by simpa using h)
      by_cases hcapture : isCapture p = true
      · simpa [bindings, captureNames, hcapture] using hrest
      · simpa [bindings, captureNames, hcapture] using hrest

theorem bindings_nonempty {pattern path : List Text} (h : ∀ s ∈ path, s ≠ []) :
    ∀ entry ∈ bindings pattern path, entry.2 ≠ [] := by
  intro entry hentry
  obtain ⟨⟨p, s⟩, hpair, hsome⟩ := List.mem_filterMap.mp hentry
  simp only [Option.ite_none_right_eq_some, Option.some.injEq] at hsome
  obtain ⟨-, rfl⟩ := hsome
  exact fun hnil => h s (List.of_mem_zip hpair).2 (percentDecodeStr_eq_nil.mp hnil)

theorem neverRejected {pattern path : List Text} (h : CapturesNamed pattern) :
    NeverRejected (pattern.zip path) := by
  intro before p s after out hsplit hout hcapture
  have hprefix : (before.map Prod.fst ++ p :: after.map Prod.fst).Sublist pattern := by
    have hmap : (pattern.zip path).map Prod.fst = before.map Prod.fst ++ p :: after.map Prod.fst :=
      by rw [hsplit, List.map_append, List.map_cons]
    rw [← hmap, List.zip_eq_zip_take_min, List.map_fst_zip (by simp)]
    exact List.take_sublist _ _
  have hnamed := h.sublist hprefix
  refine ⟨hnamed.valid p (by simp) hcapture, ?_⟩
  rw [(matchSegments_some hout).2, show (Captures.empty).entries = [] from rfl, List.nil_append,
    bindings_names (by simp)]
  have hdistinct := hnamed.distinct
  rw [captureNames, List.filter_append, List.map_append, List.filter_cons_of_pos hcapture,
    List.map_cons] at hdistinct
  exact fun hmem => List.disjoint_of_nodup_append hdistinct hmem List.mem_cons_self

/-! ### Matching as a whole -/

theorem endpointMatch_compared {pattern path : Text}
    (h : CapturesNamed (comparedParts pattern)) :
    (endpointMatch pattern path).isSome ↔
      List.Forall₂ Takes (comparedParts pattern) (comparedParts path) := by
  rw [endpointMatch_parts, List.forall₂_iff_zip]
  by_cases hlen : (comparedParts pattern).length = (comparedParts path).length
  · rw [if_neg (not_not.mpr hlen)]
    constructor
    · intro hsome
      obtain ⟨captures, hcaptures⟩ := Option.isSome_iff_exists.mp hsome
      exact ⟨hlen, fun {a b} hpair => (matchSegments_some hcaptures).1 (a, b) hpair⟩
    · rintro ⟨-, htakes⟩
      apply matchSegments_exists
      · exact fun pair hpair => h.valid pair.1 (List.of_mem_zip hpair).1
      · rw [List.map_fst_zip hlen.le]
        exact h.distinct
      · exact fun pair hpair => htakes hpair
  · simp [hlen]

theorem endpointMatch_bound {pattern path : Text} {captures : Captures}
    (h : endpointMatch pattern path = some captures) :
    (comparedParts pattern).length = (comparedParts path).length ∧
      captures.entries = bindings (comparedParts pattern) (comparedParts path) := by
  rw [endpointMatch_parts] at h
  split at h
  · contradiction
  rename_i hlen
  rw [not_not] at hlen
  refine ⟨hlen, ?_⟩
  rw [(matchSegments_some h).2, List.map_fst_zip hlen.le, List.map_snd_zip hlen.ge]
  rfl

theorem endpointMatch_neverRejected {pattern path : Text}
    (h : CapturesNamed (comparedParts pattern)) :
    NeverRejected (((normalize pattern).splitOn '/').zip ((normalize path).splitOn '/')) := by
  rw [splitOn_normalize, splitOn_normalize]
  apply neverRejected
  refine ⟨fun p hp hcapture => ?_, h.distinct⟩
  rcases List.mem_cons.mp hp with rfl | hp
  · contradiction
  · exact h.valid p hp hcapture

theorem comparedParts_of_ne {x : Text} (h : cleanParts x ≠ []) : comparedParts x = cleanParts x :=
  if_neg h

theorem comparedParts_root {x : Text} (h : cleanParts x = []) : comparedParts x = [[]] :=
  if_pos h

/-- Away from a single star or capture at the root, the compared segments take each other exactly
when the segments do. -/
theorem takes_compared {pattern path : Text} (h : ¬RootTaken pattern path) :
    List.Forall₂ Takes (comparedParts pattern) (comparedParts path) ↔
      List.Forall₂ Takes (cleanParts pattern) (cleanParts path) := by
  by_cases hpattern : cleanParts pattern = []
  · rw [comparedParts_root hpattern, hpattern, List.forall₂_nil_left_iff]
    by_cases hpath : cleanParts path = []
    · rw [comparedParts_root hpath]
      simp [hpath, Takes]
    · rw [comparedParts_of_ne hpath]
      simp only [hpath, iff_false]
      intro htakes
      cases hclean : cleanParts path with
      | nil => contradiction
      | cons s rest =>
        rw [hclean, List.forall₂_cons, takes_iff] at htakes
        have hkept := (cleanParts_mem (x := path) (s := s) (by simp [hclean])).2.1
        rcases htakes.1 with hstar | hcapture | hsame
        · contradiction
        · contradiction
        · exact hkept hsame.symm
  · rw [comparedParts_of_ne hpattern]
    by_cases hpath : cleanParts path = []
    · rw [comparedParts_root hpath, hpath, List.forall₂_nil_right_iff]
      simp only [hpattern, iff_false]
      intro htakes
      cases hclean : cleanParts pattern with
      | nil => contradiction
      | cons p rest =>
        rw [hclean, List.forall₂_cons, List.forall₂_nil_right_iff] at htakes
        obtain ⟨htakes, rfl⟩ := htakes
        have hkept := (cleanParts_mem (x := pattern) (s := p) (by simp [hclean])).2.1
        rcases htakes with hstar | hcapture | hsame
        · exact h ⟨hpath, p, hclean, Or.inl hstar⟩
        · exact h ⟨hpath, p, hclean, Or.inr hcapture⟩
        · exact hkept hsame
    · rw [comparedParts_of_ne hpath]

theorem exactMatch_of_not_rootTaken {pattern path : Text} (hpattern : Accepted pattern)
    (h : ¬RootTaken pattern path) : ExactMatch pattern path := by
  have hnamed := hpattern.capturesNamed.sublist (cleanParts_sublist pattern)
  have hdecided : (endpointMatch pattern path).isSome ↔
      List.Forall₂ Takes (cleanParts pattern) (cleanParts path) :=
    (endpointMatch_compared hnamed.compared).trans (takes_compared h)
  have hbound : ∀ captures, endpointMatch pattern path = some captures →
      captures.entries = bindings (cleanParts pattern) (cleanParts path) := by
    intro captures hcaptures
    have hlen := (hdecided.mp (by rw [hcaptures]; rfl)).length_eq
    rw [(endpointMatch_bound hcaptures).2]
    by_cases hroot : cleanParts pattern = []
    · have hpath : cleanParts path = [] := by simpa [hroot, eq_comm] using hlen
      rw [comparedParts_root hroot, comparedParts_root hpath, hroot, hpath]
      rfl
    · have hpath : cleanParts path ≠ [] := fun hnil => hroot (by simpa [hnil] using hlen)
      rw [comparedParts_of_ne hroot, comparedParts_of_ne hpath]
  refine ⟨hdecided, hbound, ?_, ?_, endpointMatch_neverRejected hnamed.compared⟩
  · intro captures hcaptures
    rw [hbound captures hcaptures]
    exact bindings_names (hdecided.mp (by rw [hcaptures]; rfl)).length_eq
  · intro captures hcaptures
    rw [hbound captures hcaptures]
    exact bindings_nonempty fun s hs => (cleanParts_mem hs).2.1

/-- A valid pattern is matched exactly, segment by segment, unless the path is the root and the
pattern is a single star or capture. -/
theorem endpointMatch_exact_iff {pattern : Text} (hpattern : Accepted pattern) (path : Text) :
    ExactMatch pattern path ↔ ¬RootTaken pattern path := by
  constructor
  · rintro hexact ⟨hroot, p, hp, htakes⟩
    have hnamed := hpattern.capturesNamed.sublist (cleanParts_sublist pattern)
    have hmatch : (endpointMatch pattern path).isSome := by
      apply (endpointMatch_compared hnamed.compared).mpr
      rw [comparedParts_root hroot, comparedParts_of_ne (by simp [hp]), hp]
      exact .cons (htakes.imp_right Or.inl) .nil
    have hlen := (hexact.decided.mp hmatch).length_eq
    simp [hroot, hp] at hlen
  · exact exactMatch_of_not_rootTaken hpattern

theorem accepted_tenant : Accepted "/\x7btenant\x7d".toList :=
  ⟨postOnly "/\x7btenant\x7d".toList, by decide +kernel, _, List.mem_singleton_self _, rfl⟩

theorem endpointMatch_exact_tenant : ExactMatch "/\x7btenant\x7d".toList "/acme".toList := by
  apply (endpointMatch_exact_iff accepted_tenant _).mpr
  rintro ⟨hroot, -⟩
  revert hroot
  decide +kernel

/-- At the root, a capture is bound to the empty text. -/
theorem endpointMatch_root : ¬ExactMatch "/\x7btenant\x7d".toList "/".toList := by
  intro h
  have hmatch : endpointMatch "/\x7btenant\x7d".toList "/".toList =
      some ⟨[("tenant".toList, [])], by decide +kernel, by decide +kernel⟩ := by decide +kernel
  exact h.nonempty _ hmatch _ List.mem_cons_self rfl

/-! ### Paths made from a pattern -/

/-- The segment with index `i` of a pattern, with its capture or star replaced. -/
def fill (names : Text → Text) (stars : Nat → Text) (i : Nat) (segment : Text) : Text :=
  if segment = ['*'] then percentEncode (stars i)
  else if isCapture segment then percentEncode (names (captureName segment))
  else segment

/-- The path made from a pattern by a text for every capture and one for every star. -/
def instantiate (names : Text → Text) (stars : Nat → Text) (pattern : Text) : Text :=
  ['/'].intercalate ((pattern.splitOn '/').mapIdx (fill names stars))

/-- Captures and stars stand for texts that are not empty. -/
structure Assigned (names : Text → Text) (stars : Nat → Text) (segments : List Text) : Prop where
  captures : ∀ name ∈ captureNames segments, names name ≠ []
  stars : ∀ i, segments[i]? = some ['*'] → stars i ≠ []

theorem kept_percentEncode {t : Text} (h : t ≠ []) : Kept (percentEncode t) := by
  obtain ⟨rest, hrest⟩ := percentEncode_head h
  rw [hrest]
  refine ⟨List.cons_ne_nil _ _, ?_⟩
  rintro (hdot | hdot) <;> simp at hdot

theorem fill_no_slash {names : Text → Text} {stars : Nat → Text} {i : Nat} {segment : Text}
    (h : '/' ∉ segment) : '/' ∉ fill names stars i segment := by
  unfold fill
  split
  · exact percentEncode_no_slash _
  split
  · exact percentEncode_no_slash _
  · exact h

theorem splitOn_instantiate (names : Text → Text) (stars : Nat → Text) (pattern : Text) :
    (instantiate names stars pattern).splitOn '/' =
      (pattern.splitOn '/').mapIdx (fill names stars) := by
  apply List.splitOn_intercalate '/'
  · intro segment hsegment
    obtain ⟨i, hi, rfl⟩ := List.mem_mapIdx.mp hsegment
    exact fill_no_slash (slash_not_mem_splitOn (List.getElem_mem hi))
  · rw [ne_eq, List.mapIdx_eq_nil_iff]
    exact List.splitOn_ne_nil '/' pattern

/-- What one segment of a pattern contributes to the path, and what it takes there. -/
theorem fill_taken {names : Text → Text} {stars : Nat → Text} {i : Nat} {segment : Text}
    (hkept : Kept segment) (hname : isCapture segment = true → names (captureName segment) ≠ [])
    (hstar : segment = ['*'] → stars i ≠ []) :
    Kept (fill names stars i segment) ∧ Takes segment (fill names stars i segment) ∧
      (isCapture segment = true →
        percentDecodeStr (fill names stars i segment) = names (captureName segment)) := by
  rw [takes_iff]
  unfold fill
  split
  · rename_i hsegment
    refine ⟨kept_percentEncode (hstar hsegment), Or.inl hsegment, ?_⟩
    rw [hsegment, literal_star.not_capture]
    exact fun h => absurd h Bool.false_ne_true
  split
  · rename_i hcapture
    exact ⟨kept_percentEncode (hname hcapture), Or.inr (Or.inl hcapture),
      fun _ => percentDecodeStr_percentEncode _⟩
  · rename_i hplain
    exact ⟨hkept, Or.inr (Or.inr rfl), fun hcapture => absurd hcapture hplain⟩

theorem Assigned.tail {names : Text → Text} {stars : Nat → Text} {segment : Text}
    {segments : List Text} (h : Assigned names stars (segment :: segments)) :
    Assigned names (fun i => stars (i + 1)) segments := by
  refine ⟨fun name hname => h.captures name ?_, fun i hi => h.stars (i + 1) (by simpa using hi)⟩
  exact ((List.sublist_cons_self _ _).filter _ |>.map _).subset hname

theorem taken_filled {names : Text → Text} {stars : Nat → Text} {segments : List Text}
    (hdots : ∀ s ∈ segments, ¬IsDot s) (h : Assigned names stars segments) :
    (∀ s ∈ segments.mapIdx (fill names stars), s = [] ∨ Kept s) ∧
    List.Forall₂ Takes (segments.filter (· ≠ []))
      ((segments.mapIdx (fill names stars)).filter (· ≠ [])) ∧
    bindings (segments.filter (· ≠ [])) ((segments.mapIdx (fill names stars)).filter (· ≠ [])) =
      (captureNames segments).map fun name => (name, names name) := by
  induction segments generalizing stars with
  | nil => exact ⟨by simp, .nil, rfl⟩
  | cons segment segments ih =>
    obtain ⟨hkept, htakes, hbindings⟩ :=
      ih (fun s hs => hdots s (List.mem_cons_of_mem _ hs)) h.tail
    have hshift : (fun i => fill names stars (i + 1)) = fill names fun i => stars (i + 1) := rfl
    rw [List.mapIdx_cons, hshift]
    by_cases hnil : segment = []
    · subst hnil
      have hfill : fill names stars 0 [] = [] := rfl
      refine ⟨?_, ?_, ?_⟩
      · rw [hfill, List.forall_mem_cons]
        exact ⟨Or.inl rfl, hkept⟩
      · simpa [hfill] using htakes
      · simpa [hfill, captureNames, isCapture] using hbindings
    · have hname : isCapture segment = true → names (captureName segment) ≠ [] := fun hcapture =>
        h.captures _ (by simp [captureNames, hcapture])
      obtain ⟨hfilled, hfirst, hdecode⟩ := fill_taken (i := 0)
        ⟨hnil, hdots segment List.mem_cons_self⟩ hname fun hstar => h.stars 0 (by simp [hstar])
      have hne := hfilled.1
      refine ⟨?_, ?_, ?_⟩
      · rw [List.forall_mem_cons]
        exact ⟨Or.inr hfilled, hkept⟩
      · rw [List.filter_cons_of_pos (by simpa using hnil),
          List.filter_cons_of_pos (by simpa using hne)]
        exact .cons hfirst htakes
      · rw [List.filter_cons_of_pos (by simpa using hnil),
          List.filter_cons_of_pos (by simpa using hne)]
        by_cases hcapture : isCapture segment = true
        · simpa [bindings, captureNames, hcapture, hdecode hcapture] using hbindings
        · simpa [bindings, captureNames, hcapture] using hbindings

/-- A path that is made from a valid pattern without dot segments, with every capture and star
replaced by an encoded text, is matched, and the captures are bound to their texts. -/
theorem endpointMatch_instantiate {pattern : Text} (hpattern : Accepted pattern)
    (hdots : ∀ s ∈ pattern.splitOn '/', ¬IsDot s) {names : Text → Text} {stars : Nat → Text}
    (hassigned : Assigned names stars (pattern.splitOn '/')) :
    ∃ captures, endpointMatch pattern (instantiate names stars pattern) = some captures ∧
      captures.entries =
        (captureNames (pattern.splitOn '/')).map fun name => (name, names name) := by
  obtain ⟨hkept, htakes, hbindings⟩ := taken_filled hdots hassigned
  have hclean : cleanParts pattern = (pattern.splitOn '/').filter (· ≠ []) := by
    rw [cleanParts, foldl_cleanStep_filter, List.nil_append]
    intro s hs
    by_cases hnil : s = []
    · exact Or.inl hnil
    · exact Or.inr ⟨hnil, hdots s hs⟩
  have hcleanPath : cleanParts (instantiate names stars pattern) =
      ((pattern.splitOn '/').mapIdx (fill names stars)).filter (· ≠ []) := by
    rw [cleanParts, splitOn_instantiate, foldl_cleanStep_filter hkept, List.nil_append]
  rw [← hclean, ← hcleanPath] at htakes hbindings
  have hroot : ¬RootTaken pattern (instantiate names stars pattern) := by
    rintro ⟨hnil, p, hp, -⟩
    have hlen := htakes.length_eq
    simp [hnil, hp] at hlen
  have hexact := exactMatch_of_not_rootTaken hpattern hroot
  obtain ⟨captures, hcaptures⟩ := Option.isSome_iff_exists.mp (hexact.decided.mpr htakes)
  exact ⟨captures, hcaptures, (hexact.bound captures hcaptures).trans hbindings⟩

theorem endpointMatch_instantiate_tenant :
    ∃ captures, endpointMatch "/\x7btenant\x7d".toList
        (instantiate (fun _ => "a/\x7bb\x7d".toList) (fun _ => []) "/\x7btenant\x7d".toList) =
          some captures ∧
      captures.entries = [("tenant".toList, "a/\x7bb\x7d".toList)] := by
  have hsegments : "/\x7btenant\x7d".toList.splitOn '/' = [[], "{tenant}".toList] := by
    decide +kernel
  refine endpointMatch_instantiate accepted_tenant ?_ ?_
  · rw [hsegments]
    decide +kernel
  · rw [hsegments]
    refine ⟨fun _ _ => by simp, fun i hi => ?_⟩
    have hmem := List.mem_of_getElem? hi
    revert hmem
    decide +kernel

end KubeRbacProxy
