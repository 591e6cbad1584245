import KubeRbacProxy.Authorization.CaptureOrder
import KubeRbacProxy.Authorization.Validate

/-! Spellings of a path.  Captures are decoded and literal segments are compared as they are sent,
so a spelling of a segment that a pattern can name is another segment to it.  Where the order of the
captures does not matter, authorization is the same for all spellings of a path exactly when no
segment of the path can be named by a literal. -/

namespace KubeRbacProxy

open Library

/-- The segments of `x` and `y` are pairwise equal after percent-decoding. -/
def Respelled (x y : Text) : Prop :=
  List.Forall₂ (fun a b => percentDecodeStr a = percentDecodeStr b) (x.splitOn '/') (y.splitOn '/')

/-- Every valid configuration without `%` in its patterns authorizes two requests that differ in the
paths `x` and `y` alike, each in an order of its own of the captures, where the one to `x` is free
of that order. -/
def SameAuthorization (x y : Text) : Prop :=
  ∀ cfg (req : Request) identity, validateAuthorizationConfig cfg = .ok () →
    (∀ endpoint ∈ cfg.endpoints, '%' ∉ endpoint.path) → OrderFree cfg { req with path := x } →
    ∀ iter iter' : Iteration, outcome (attributes iter cfg { req with path := x } identity) =
      outcome (attributes iter' cfg { req with path := y } identity)

/-- No literal segment of a pattern names the segment: a star names every segment, and a valid
pattern without `%` has braces only around captures. -/
def Unnamed (segment : Text) : Prop := segment = ['*'] ∨ '%' ∈ segment ∨ hasBrace segment = true

/-- Two segments that patterns cannot tell apart. -/
def Alike (a b : Text) : Prop :=
  a = b ∨ (Unnamed a ∧ Unnamed b ∧ percentDecodeStr a = percentDecodeStr b)

def Nameable (d : Text) : Prop :=
  d ≠ [] ∧ d ≠ ['*'] ∧ '%' ∉ d ∧ '/' ∉ d ∧ hasBrace d = false

instance (d : Text) : Decidable (Nameable d) := inferInstanceAs (Decidable (_ ∧ _))

/-! ### Segments that patterns cannot tell apart -/

theorem Alike.decode_eq {a b : Text} (h : Alike a b) : percentDecodeStr a = percentDecodeStr b := by
  rcases h with rfl | ⟨-, -, h⟩
  · rfl
  · exact h

def PatternSegment (p : Text) : Prop := isCapture p = true ∨ ('%' ∉ p ∧ hasBrace p = false)

theorem unnamed_ne {p a : Text} (hp : PatternSegment p) (hcapture : ¬isCapture p = true)
    (hstar : p ≠ ['*']) (ha : Unnamed a) : p ≠ a := by
  obtain ⟨hpercent, hbrace⟩ := hp.resolve_left hcapture
  rintro rfl
  rcases ha with h | h | h
  · exact hstar h
  · exact hpercent h
  · simp [hbrace] at h

theorem matchSegments_alike {pattern path other : List Text}
    (hpattern : ∀ p ∈ pattern, PatternSegment p) (h : List.Forall₂ Alike path other)
    (out : Captures) :
    matchSegments (pattern.zip path) out = matchSegments (pattern.zip other) out := by
  induction pattern generalizing path other out with
  | nil => simp
  | cons p pattern ih =>
    cases h with
    | nil => rfl
    | @cons a b path other hab hrest =>
      have hlater := fun out => ih (fun q hq => hpattern q (List.mem_cons_of_mem _ hq)) hrest out
      simp only [List.zip_cons_cons, matchSegments]
      by_cases hcapture : isCapture p = true
      · simp only [hcapture, if_true, hab.decode_eq, hlater]
      · simp only [hcapture, Bool.false_eq_true, if_false]
        by_cases hstar : p = ['*']
        · simp only [hstar, ne_eq, not_true_eq_false, false_and, if_false, hlater]
        · rcases hab with rfl | ⟨ha, hb, -⟩
          · simp only [hlater]
          · have hp := hpattern p List.mem_cons_self
            rw [if_pos ⟨hstar, unnamed_ne hp hcapture hstar ha⟩,
              if_pos ⟨hstar, unnamed_ne hp hcapture hstar hb⟩]

theorem comparedParts_alike {x y : Text} (h : List.Forall₂ Alike (cleanParts x) (cleanParts y)) :
    List.Forall₂ Alike (comparedParts x) (comparedParts y) := by
  unfold comparedParts
  by_cases hx : cleanParts x = []
  · rw [hx, List.forall₂_nil_left_iff] at h
    rw [if_pos hx, if_pos h]
    exact .cons (Or.inl rfl) .nil
  · have hy : cleanParts y ≠ [] := by
      intro hy
      rw [hy, List.forall₂_nil_right_iff] at h
      exact hx h
    rwa [if_neg hx, if_neg hy]

theorem endpointMatch_alike {pattern x y : Text}
    (hpattern : ∀ p ∈ comparedParts pattern, PatternSegment p)
    (h : List.Forall₂ Alike (cleanParts x) (cleanParts y)) :
    endpointMatch pattern x = endpointMatch pattern y := by
  have hparts := comparedParts_alike h
  rw [endpointMatch_parts, endpointMatch_parts, hparts.length_eq,
    matchSegments_alike hpattern hparts]

theorem pattern_segments {cfg : AuthorizationConfig} (h : validateAuthorizationConfig cfg = .ok ())
    {endpoint : Endpoint} (hendpoint : endpoint ∈ cfg.endpoints) (hpercent : '%' ∉ endpoint.path) :
    ∀ p ∈ comparedParts endpoint.path, PatternSegment p := by
  have hclean : ∀ p ∈ cleanParts endpoint.path, PatternSegment p := by
    intro p hp
    obtain ⟨hsegment, -⟩ := cleanParts_mem hp
    by_cases hbrace : hasBrace p = true
    · exact Or.inl (valid_capture h hendpoint hsegment hbrace).1
    · obtain ⟨-, a, b, hpath, -, -⟩ := mem_splitOn_iff.mp hsegment
      refine Or.inr ⟨fun hp => hpercent ?_, by simpa using hbrace⟩
      rw [hpath]
      simp [hp]
  intro p hp
  unfold comparedParts at hp
  split at hp
  · rw [List.mem_singleton.mp hp]
    exact Or.inr ⟨by decide, rfl⟩
  · exact hclean p hp

/-! ### What attributes depend on -/

/-- Apart from what the endpoints match, the path is only recorded. -/
theorem outcome_attributes {cfg : AuthorizationConfig} {x y : Text}
    (h : ∀ endpoint ∈ cfg.endpoints, endpointMatch endpoint.path x = endpointMatch endpoint.path y)
    (iter : Iteration) (req : Request) (identity : Identity) :
    outcome (attributes iter cfg { req with path := x } identity) =
      outcome (attributes iter cfg { req with path := y } identity) := by
  have hmatched : ∀ endpoints : List Endpoint,
      (∀ e ∈ endpoints, endpointMatch e.path x = endpointMatch e.path y) →
      matchedEndpoint x endpoints = matchedEndpoint y endpoints := by
    intro endpoints hsame
    induction endpoints with
    | nil => rfl
    | cons e endpoints ih =>
      simp only [matchedEndpoint, hsame e List.mem_cons_self,
        ih fun e' he' => hsame e' (List.mem_cons_of_mem _ he')]
  simp only [attributes, hmatched cfg.endpoints h]
  cases matchedEndpoint y cfg.endpoints with
  | some found =>
    obtain ⟨endpoint, captures⟩ := found
    simp only [endpointAttributes]
    cases endpoint.mappings.find? (·.accepts req.method) with
    | none => rfl
    | some mapping =>
      rw [outcome_mapM, outcome_mapM]
      congr 1
      funext rule
      simp only [ruleAttributes, show endpointRewrites { req with path := x } rule.rewrites =
        endpointRewrites { req with path := y } rule.rewrites from rfl]
      cases endpointRewrites { req with path := y } rule.rewrites <;> rfl
  | none =>
    simp only [outcome, Except.map, defaultAttributes]
    cases cfg.resourceAttributes with
    | none => rfl
    | some ra =>
      simp only [List.map_map]
      rfl

theorem sameAuthorization_of_alike {x y : Text}
    (h : List.Forall₂ Alike (cleanParts x) (cleanParts y)) : SameAuthorization x y := by
  intro cfg req identity hvalid hpercent hfree iter iter'
  rw [(outcome_orderFree_iff cfg { req with path := x } identity).mpr hfree iter iter']
  refine outcome_attributes (fun endpoint hendpoint => ?_) iter' req identity
  exact endpointMatch_alike (pattern_segments hvalid hendpoint (hpercent endpoint hendpoint)) h

/-! ### Spellings that a pattern tells apart -/

theorem percent_mem_of_decode_ne {a : Text} (h : percentDecodeStr a ≠ a) : '%' ∈ a := by
  by_contra hnot
  exact h (percentDecodeStr_no_percent hnot)

theorem alike_of_not_nameable {a b : Text} (ha : '/' ∉ a) (hb : '/' ∉ b)
    (hab : percentDecodeStr a = percentDecodeStr b) (h : ¬Nameable (percentDecodeStr a)) :
    Alike a b := by
  have unnamed : ∀ c : Text, '/' ∉ c → percentDecodeStr c = percentDecodeStr a → c ≠ [] →
      Unnamed c := by
    intro c hc hdecode hne
    by_cases hpercent : '%' ∈ c
    · exact Or.inr (Or.inl hpercent)
    rw [percentDecodeStr_no_percent hpercent] at hdecode
    rw [← hdecode] at h
    by_contra hnamed
    rw [Unnamed, not_or, not_or] at hnamed
    exact h ⟨hne, hnamed.1, hpercent, hc, by simpa using hnamed.2.2⟩
  by_cases hnil : a = []
  · left
    rw [hnil, percentDecodeStr_eq_nil.mpr rfl] at hab
    rw [hnil, percentDecodeStr_eq_nil.mp hab.symm]
  · have hbnil : b ≠ [] := by
      rintro rfl
      rw [percentDecodeStr_eq_nil.mpr rfl] at hab
      exact hnil (percentDecodeStr_eq_nil.mp hab)
    exact Or.inr ⟨unnamed a ha rfl hnil, unnamed b hb hab.symm hbnil, hab⟩

theorem unnamed_kept {a : Text} (h : Unnamed a) : Kept a := by
  constructor
  · rintro rfl
    rcases h with h | h | h <;> simp [hasBrace] at h
  · rintro (rfl | rfl)
    · rcases h with h | h | h <;> revert h <;> decide
    · rcases h with h | h | h <;> revert h <;> decide

theorem foldl_cleanStep_alike {kept kept' segments segments' : List Text}
    (hkept : List.Forall₂ Alike kept kept') (h : List.Forall₂ Alike segments segments') :
    List.Forall₂ Alike (segments.foldl cleanStep kept) (segments'.foldl cleanStep kept') := by
  induction h generalizing kept kept' with
  | nil => exact hkept
  | @cons a b segments segments' hab _ ih =>
    apply ih
    rcases hab with rfl | ⟨ha, hb, hdecode⟩
    · unfold cleanStep
      split
      · exact hkept
      split
      · rw [List.dropLast_eq_take, List.dropLast_eq_take, hkept.length_eq]
        exact List.forall₂_take _ hkept
      · exact List.rel_append hkept (.cons (Or.inl rfl) .nil)
    · rw [cleanStep_kept (unnamed_kept ha), cleanStep_kept (unnamed_kept hb)]
      exact List.rel_append hkept (.cons (Or.inr ⟨ha, hb, hdecode⟩) .nil)

theorem sameAuthorization_of_not_nameable {x y : Text} (hxy : Respelled x y)
    (h : ∀ s ∈ x.splitOn '/', ¬Nameable (percentDecodeStr s)) : SameAuthorization x y := by
  refine sameAuthorization_of_alike (foldl_cleanStep_alike .nil ?_)
  have hx : ∀ s ∈ x.splitOn '/', '/' ∉ s := fun s => slash_not_mem_splitOn
  have hy : ∀ s ∈ y.splitOn '/', '/' ∉ s := fun s => slash_not_mem_splitOn
  unfold Respelled at hxy
  generalize x.splitOn '/' = segments at hxy h hx
  generalize y.splitOn '/' = segments' at hxy hy
  induction hxy with
  | nil => exact .nil
  | @cons a b segments segments' hab _ ih =>
    refine .cons ?_ (ih (fun s hs => h s (List.mem_cons_of_mem _ hs))
      (fun s hs => hx s (List.mem_cons_of_mem _ hs)) fun s hs => hy s (List.mem_cons_of_mem _ hs))
    exact alike_of_not_nameable (hx a List.mem_cons_self) (hy b List.mem_cons_self) hab
      (h a List.mem_cons_self)

def getMethod : Text := "GET".toList
def postMethod : Text := "POST".toList

def postOnly (pattern : Text) : AuthorizationConfig where
  endpoints := [⟨pattern, [⟨[postMethod], [{}]⟩]⟩]

/-- A valid pattern without `%` matches `x` and not `y`. -/
def ToldApart (x y : Text) : Prop :=
  ∃ pattern, validateAuthorizationConfig (postOnly pattern) = .ok () ∧ '%' ∉ pattern ∧
    (endpointMatch pattern x).isSome ∧ endpointMatch pattern y = none

theorem get_not_accepted : Mapping.accepts ⟨[postMethod], [{}]⟩ getMethod = false := by
  decide +kernel

/-- Where only `POST` is mapped, nothing is expanded for a `GET`. -/
theorem postOnly_orderFree (pattern x : Text) :
    OrderFree (postOnly pattern) ⟨getMethod, x, none, []⟩ := by
  intro endpoint captures mapping hmatched hmapping
  obtain ⟨-, before, after, hsplit, -⟩ := matchedEndpoint_some.mp hmatched
  have hmem : endpoint ∈ (postOnly pattern).endpoints := by simp [hsplit]
  obtain rfl := List.mem_singleton.mp hmem
  simp [get_not_accepted] at hmapping

theorem postOnly_outcome_ne {pattern x y : Text} (hx : (endpointMatch pattern x).isSome)
    (hy : endpointMatch pattern y = none) (identity : Identity) (iter iter' : Iteration) :
    outcome (attributes iter (postOnly pattern) ⟨getMethod, x, none, []⟩ identity) ≠
      outcome (attributes iter' (postOnly pattern) ⟨getMethod, y, none, []⟩ identity) := by
  obtain ⟨captures, hcaptures⟩ := Option.isSome_iff_exists.mp hx
  simp [attributes, postOnly, matchedEndpoint, hcaptures, hy, endpointAttributes, get_not_accepted,
    outcome, Except.map]

theorem not_sameAuthorization {x y : Text} (h : ToldApart x y ∨ ToldApart y x) :
    ¬SameAuthorization x y := by
  intro hsame
  have hpost : ∀ pattern, validateAuthorizationConfig (postOnly pattern) = .ok () → '%' ∉ pattern →
      ∀ iter iter', outcome (attributes iter (postOnly pattern) ⟨getMethod, x, none, []⟩ ⟨[], []⟩) =
        outcome (attributes iter' (postOnly pattern) ⟨getMethod, y, none, []⟩ ⟨[], []⟩) :=
    fun pattern hvalid hpercent => hsame (postOnly pattern) ⟨getMethod, x, none, []⟩ ⟨[], []⟩ hvalid
      (by simpa [postOnly] using hpercent) (postOnly_orderFree pattern x)
  rcases h with ⟨pattern, hvalid, hpercent, hx, hy⟩ | ⟨pattern, hvalid, hpercent, hy, hx⟩
  · exact postOnly_outcome_ne hx hy _ insertionOrder insertionOrder
      (hpost pattern hvalid hpercent _ _)
  · exact postOnly_outcome_ne hy hx _ insertionOrder insertionOrder
      (hpost pattern hvalid hpercent _ _).symm

def starPattern (parts : List Text) : Text := '/' :: ['/'].intercalate parts

structure Literal (p : Text) : Prop where
  kept : Kept p
  slash : '/' ∉ p
  percent : '%' ∉ p
  brace : hasBrace p = false

theorem literal_star : Literal ['*'] :=
  ⟨⟨by decide, by decide⟩, by decide, by decide, by decide⟩

theorem mem_starPattern {parts : List Text} {c : Char} (h : c ∈ starPattern parts) :
    c = '/' ∨ ∃ p ∈ parts, c ∈ p := by
  rcases List.mem_cons.mp h with h | h
  · exact Or.inl h
  · induction parts with
    | nil => simp [List.intercalate] at h
    | cons p parts ih =>
      cases parts with
      | nil => exact Or.inr ⟨p, List.mem_cons_self, by simpa [List.intercalate] using h⟩
      | cons q parts =>
        rw [show ['/'].intercalate (p :: q :: parts) = p ++ '/' :: ['/'].intercalate (q :: parts) by
          simp [List.intercalate], List.mem_append, List.mem_cons] at h
        rcases h with h | h | h
        · exact Or.inr ⟨p, List.mem_cons_self, h⟩
        · exact Or.inl h
        · rcases ih (List.mem_cons_of_mem _ h) h with h | ⟨r, hr, h⟩
          · exact Or.inl h
          · exact Or.inr ⟨r, List.mem_cons_of_mem _ hr, h⟩

theorem checkSegments_plain {i : Nat} {path : Text} {captures segments : List Text}
    (h : ∀ s ∈ segments, hasBrace s = false) : checkSegments i path captures segments = .ok () := by
  induction segments with
  | nil => rfl
  | cons s segments ih =>
    rw [checkSegments, h s List.mem_cons_self]
    exact ih fun r hr => h r (List.mem_cons_of_mem _ hr)

theorem starPattern_valid {parts : List Text} (h : ∀ p ∈ parts, Literal p) :
    validateAuthorizationConfig (postOnly (starPattern parts)) = .ok () ∧
      '%' ∉ starPattern parts := by
  have hpercent : '%' ∉ starPattern parts := by
    intro hmem
    rcases mem_starPattern hmem with h' | ⟨p, hp, hmem⟩
    · contradiction
    · exact (h p hp).percent hmem
  have hbrace : ∀ c ∈ starPattern parts, (c == '{' || c == '}') = false := by
    intro c hc
    rcases mem_starPattern hc with rfl | ⟨p, hp, hc⟩
    · decide
    · have := (h p hp).brace
      rw [hasBrace, List.any_eq_false] at this
      simpa using this c hc
  have hsegments : ∀ s ∈ (starPattern parts).splitOn '/', hasBrace s = false := by
    intro s hs
    obtain ⟨-, a, b, hpath, -, -⟩ := mem_splitOn_iff.mp hs
    rw [hasBrace, List.any_eq_false]
    intro c hc
    have := hbrace c (by rw [hpath]; simp [hc])
    simpa using this
  have htrim : trim (starPattern parts) ≠ [] := by
    intro hnil
    rw [trim, List.rdropWhile_eq_nil_iff] at hnil
    have hslash := hnil '/' (by simp [starPattern, show isWhitespace '/' = false by decide])
    contradiction
  refine ⟨?_, hpercent⟩
  simp [validateAuthorizationConfig, postOnly, checkEndpoints, htrim, checkSegments_plain hsegments,
    checkMappings, checkRules, checkStatic]

theorem Literal.not_capture {p : Text} (h : Literal p) : isCapture p = false := by
  refine Bool.eq_false_iff.mpr fun hcapture => ?_
  rw [isCapture, Bool.and_eq_true, beq_iff_eq, List.head?_eq_some_iff] at hcapture
  obtain ⟨⟨rest, rfl⟩, -⟩ := hcapture
  simpa [hasBrace] using h.brace

theorem matchSegments_literals {parts path : List Text} (h : ∀ p ∈ parts, isCapture p = false)
    (hmatch : List.Forall₂ (fun p r => p = ['*'] ∨ p = r) parts path) (out : Captures) :
    matchSegments (parts.zip path) out = some out := by
  induction hmatch with
  | nil => rfl
  | @cons p r parts path hpr _ ih =>
    have hcond : ¬(p ≠ ['*'] ∧ p ≠ r) := by
      rintro ⟨hstar, hne⟩
      exact hpr.elim hstar hne
    simp only [List.zip_cons_cons, matchSegments, h p List.mem_cons_self, Bool.false_eq_true,
      if_false, hcond]
    exact ih fun q hq => h q (List.mem_cons_of_mem _ hq)

theorem matchSegments_literal_ne {before path : List Text} {d e : Text} {parts rest : List Text}
    (hlen : before.length = path.length) (hbefore : ∀ p ∈ before, p = ['*'])
    (hd : isCapture d = false) (hstar : d ≠ ['*']) (hne : d ≠ e) (out : Captures) :
    matchSegments ((before ++ d :: parts).zip (path ++ e :: rest)) out = none := by
  induction before generalizing path with
  | nil =>
    obtain rfl := List.length_eq_zero_iff.mp hlen.symm
    simp [matchSegments, hd, hstar, hne]
  | cons p before ih =>
    cases path with
    | nil => simp at hlen
    | cons r path =>
      obtain rfl := hbefore p List.mem_cons_self
      simp only [List.cons_append, List.zip_cons_cons, matchSegments, literal_star.not_capture,
        Bool.false_eq_true, if_false, ne_eq, not_true_eq_false, false_and]
      exact ih (by simpa using hlen) fun q hq => hbefore q (List.mem_cons_of_mem _ hq)

theorem comparedParts_starPattern {parts : List Text} (h : ∀ p ∈ parts, Literal p) :
    comparedParts (starPattern parts) = if parts = [] then [[]] else parts := by
  rw [comparedParts, starPattern, cleanParts_join fun p hp => ⟨(h p hp).kept, (h p hp).slash⟩]

theorem stars_match (l : List Text) :
    List.Forall₂ (fun p r => p = ['*'] ∨ p = r) (List.replicate l.length ['*']) l := by
  rw [List.forall₂_iff_get]
  exact ⟨by simp, fun i hi _ => Or.inl (by simp)⟩

theorem toldApart_of_length {x y : Text}
    (h : (cleanParts x).length < (cleanParts y).length) : ToldApart x y := by
  have hliteral : ∀ p ∈ List.replicate (cleanParts x).length ['*'], Literal p := fun p hp =>
    (List.eq_of_mem_replicate hp) ▸ literal_star
  have hy : cleanParts y ≠ [] := by
    intro hnil
    rw [hnil] at h
    exact absurd h (Nat.not_lt_zero _)
  obtain ⟨hvalid, hpercent⟩ := starPattern_valid hliteral
  refine ⟨_, hvalid, hpercent, ?_, ?_⟩
  · rw [endpointMatch_parts, comparedParts_starPattern hliteral, comparedParts]
    by_cases hx : cleanParts x = []
    · simp [hx, matchSegments, isCapture]
    · have hne : List.replicate (cleanParts x).length ['*'] ≠ [] := by simpa using hx
      rw [if_neg hx, if_neg hne, if_neg (by simp), matchSegments_literals
        fun p hp => (hliteral p hp).not_capture]
      · rfl
      · exact stars_match (cleanParts x)
  · rw [endpointMatch_parts, comparedParts_starPattern hliteral, comparedParts, if_neg hy]
    by_cases hx : cleanParts x = []
    · have hroot : List.replicate (cleanParts x).length (['*'] : Text) = [] := by simp [hx]
      rw [if_pos hroot]
      split
      · rfl
      · rename_i hlen
        rw [not_not] at hlen
        obtain ⟨e, he⟩ := List.length_eq_one_iff.mp hlen.symm
        have hkept := (cleanParts_mem (x := y) (s := e) (by simp [he])).2.1
        rw [he]
        exact @matchSegments_literal_ne [] [] _ _ _ _ rfl (by simp) rfl (by decide)
          (Ne.symm hkept) _
    · have hne : List.replicate (cleanParts x).length ['*'] ≠ [] := by simpa using hx
      rw [if_neg hne, if_pos (by simp; omega)]

theorem toldApart_of_literal {x y d e : Text} {before after before' after' : List Text}
    (hx : cleanParts x = before ++ d :: after) (hy : cleanParts y = before' ++ e :: after')
    (hbefore : before.length = before'.length) (hafter : after.length = after'.length)
    (hd : Literal d) (hstar : d ≠ ['*']) (hne : d ≠ e) : ToldApart x y := by
  obtain ⟨parts, hparts⟩ : ∃ parts : List Text,
      parts = List.replicate before.length ['*'] ++ d :: List.replicate after.length ['*'] :=
    ⟨_, rfl⟩
  have hliteral : ∀ p ∈ parts, Literal p := by
    intro p hp
    rw [hparts] at hp
    rcases List.mem_append.mp hp with hp | hp
    · exact List.eq_of_mem_replicate hp ▸ literal_star
    rcases List.mem_cons.mp hp with rfl | hp
    · exact hd
    · exact List.eq_of_mem_replicate hp ▸ literal_star
  have hnonempty : parts ≠ [] := by simp [hparts]
  have hlen : parts.length = before.length + (after.length + 1) := by simp [hparts]
  obtain ⟨hvalid, hpercent⟩ := starPattern_valid hliteral
  refine ⟨_, hvalid, hpercent, ?_, ?_⟩
  · have hparts_x : comparedParts x = before ++ d :: after := by simp [comparedParts, hx]
    rw [endpointMatch_parts, comparedParts_starPattern hliteral, if_neg hnonempty, hparts_x,
      if_neg (by simp [hlen]), matchSegments_literals fun p hp => (hliteral p hp).not_capture]
    · rfl
    · rw [hparts]
      exact List.rel_append (stars_match before) (.cons (Or.inr rfl) (stars_match after))
  · have hparts_y : comparedParts y = before' ++ e :: after' := by simp [comparedParts, hy]
    rw [endpointMatch_parts, comparedParts_starPattern hliteral, if_neg hnonempty, hparts_y,
      if_neg (by simp [hlen, hbefore, hafter]), hparts]
    exact matchSegments_literal_ne (by simpa using hbefore) (fun p => List.eq_of_mem_replicate)
      hd.not_capture hstar hne _

/-- Cleaned segments at one position that no literal names are equal after decoding. -/
def Comparable (x y : Text) : Prop :=
  ∀ i (hx : i < (cleanParts x).length) (hy : i < (cleanParts y).length),
    Unnamed (cleanParts x)[i] → Unnamed (cleanParts y)[i] →
      percentDecodeStr (cleanParts x)[i] = percentDecodeStr (cleanParts y)[i]

theorem literal_of_named {x s : Text} (hs : s ∈ cleanParts x) (h : ¬Unnamed s) : Literal s := by
  obtain ⟨hmem, hkept⟩ := cleanParts_mem hs
  rw [Unnamed, not_or, not_or] at h
  exact ⟨hkept, slash_not_mem_splitOn hmem, h.2.1, by simpa using h.2.2⟩

theorem eq_of_named {x y : Text} (hlen : (cleanParts x).length = (cleanParts y).length)
    (hsame : ¬ToldApart x y) {i : Nat} (hx : i < (cleanParts x).length)
    (hy : i < (cleanParts y).length) (h : ¬Unnamed (cleanParts x)[i]) :
    (cleanParts x)[i] = (cleanParts y)[i] := by
  by_contra hne
  have hsplit : ∀ (l : List Text) (hl : i < l.length), l = l.take i ++ l[i] :: l.drop (i + 1) := by
    intro l hl
    rw [← List.drop_eq_getElem_cons hl, List.take_append_drop]
  refine hsame (toldApart_of_literal (hsplit _ hx) (hsplit _ hy) ?_ ?_
    (literal_of_named (List.getElem_mem hx) h) (fun hstar => h (Or.inl hstar)) hne)
  · simp [hlen]
  · simp [hlen]

/-- Comparable paths are authorized alike exactly when patterns cannot tell their segments apart. -/
theorem sameAuthorization_iff_alike {x y : Text} (h : Comparable x y) :
    SameAuthorization x y ↔ List.Forall₂ Alike (cleanParts x) (cleanParts y) := by
  constructor
  · intro hsame
    have hxy : ¬ToldApart x y := fun htold => not_sameAuthorization (Or.inl htold) hsame
    have hyx : ¬ToldApart y x := fun htold => not_sameAuthorization (Or.inr htold) hsame
    have hle : (cleanParts y).length ≤ (cleanParts x).length :=
      not_lt.mp fun hlt => hxy (toldApart_of_length hlt)
    have hge : (cleanParts x).length ≤ (cleanParts y).length :=
      not_lt.mp fun hlt => hyx (toldApart_of_length hlt)
    have hlen : (cleanParts x).length = (cleanParts y).length := by omega
    rw [List.forall₂_iff_get]
    refine ⟨hlen, fun i hx hy => ?_⟩
    show Alike (cleanParts x)[i] (cleanParts y)[i]
    by_cases hx' : Unnamed (cleanParts x)[i]
    · by_cases hy' : Unnamed (cleanParts y)[i]
      · exact Or.inr ⟨hx', hy', h i hx hy hx' hy'⟩
      · exact Or.inl (eq_of_named hlen.symm hyx hy hx hy').symm
    · exact Or.inl (eq_of_named hlen hxy hx hy hx')
  · exact sameAuthorization_of_alike

theorem foldl_cleanStep_filter {segments : List Text} (h : ∀ s ∈ segments, s = [] ∨ Kept s)
    (parts : List Text) :
    segments.foldl cleanStep parts = parts ++ segments.filter (· ≠ []) := by
  induction segments generalizing parts with
  | nil => simp
  | cons s segments ih =>
    have hrest := ih fun r hr => h r (List.mem_cons_of_mem _ hr)
    rw [List.foldl_cons, hrest]
    rcases h s List.mem_cons_self with rfl | hkept
    · simp [cleanStep]
    · simp [cleanStep_kept hkept, hkept.1]

theorem splitOn_around {before after : List Text} {c : Text} (hbefore : ∀ s ∈ before, '/' ∉ s)
    (hafter : ∀ s ∈ after, '/' ∉ s) (hc : '/' ∉ c) :
    (['/'].intercalate (before ++ c :: after)).splitOn '/' = before ++ c :: after := by
  apply List.splitOn_intercalate '/'
  · intro s hs
    rcases List.mem_append.mp hs with hs | hs
    · exact hbefore s hs
    rcases List.mem_cons.mp hs with rfl | hs
    · exact hc
    · exact hafter s hs
  · simp

theorem toldApart_of_spelling {before after : List Text} {d e : Text}
    (hbefore : ∀ s ∈ before, '/' ∉ s) (hafter : ∀ s ∈ after, '/' ∉ s) (hslash : '/' ∉ e)
    (hlater : ∀ s ∈ after, ¬Nameable (percentDecodeStr s)) (hd : Nameable d) (he : '%' ∈ e) :
    ToldApart (['/'].intercalate (before ++ d :: after))
      (['/'].intercalate (before ++ e :: after)) := by
  obtain ⟨hnil, hstar, hpercent, hdslash, hbrace⟩ := hd
  have hkeep : ∀ s ∈ after, s = [] ∨ Kept s := by
    intro s hs
    by_cases hempty : s = []
    · exact Or.inl hempty
    · refine Or.inr ⟨hempty, fun hdot => hlater s hs ?_⟩
      rcases hdot with rfl | rfl <;> (rw [percentDecodeStr_no_percent (by decide)]; decide)
  have hclean : ∀ c, '/' ∉ c → cleanParts (['/'].intercalate (before ++ c :: after)) =
      cleanStep (before.foldl cleanStep []) c ++ after.filter (· ≠ []) := by
    intro c hc
    rw [cleanParts, splitOn_around hbefore hafter hc, List.foldl_append, List.foldl_cons,
      foldl_cleanStep_filter hkeep]
  have hx := hclean d hdslash
  have hy := hclean e hslash
  rw [cleanStep_kept (unnamed_kept (Or.inr (Or.inl he)))] at hy
  by_cases hdot : IsDot d
  · -- A raw dot segment is dropped, and another spelling of it is kept.
    apply toldApart_of_length
    rw [hx, hy]
    rcases hdot with rfl | rfl
    · simp [cleanStep]
    · simp [cleanStep]
      omega
  · rw [cleanStep_kept ⟨hnil, hdot⟩, List.append_assoc] at hx
    rw [List.append_assoc] at hy
    exact toldApart_of_literal hx hy rfl rfl ⟨⟨hnil, hdot⟩, hdslash, hpercent, hbrace⟩
      hstar fun heq => hpercent (heq ▸ he)

theorem exists_last {α : Type} {P : α → Prop} {l : List α} (h : ∃ a ∈ l, P a) :
    ∃ before a after, l = before ++ a :: after ∧ P a ∧ ∀ b ∈ after, ¬P b := by
  induction l with
  | nil => simp at h
  | cons a l ih =>
    by_cases hlater : ∃ b ∈ l, P b
    · obtain ⟨before, b, after, rfl, hb, hafter⟩ := ih hlater
      exact ⟨a :: before, b, after, rfl, hb, hafter⟩
    · obtain ⟨b, hb, hP⟩ := h
      rcases List.mem_cons.mp hb with rfl | hb
      · exact ⟨[], b, l, rfl, hP, fun c hc hc' => hlater ⟨c, hc, hc'⟩⟩
      · exact absurd ⟨b, hb, hP⟩ hlater

theorem exists_respelled {x : Text} (h : ∃ s ∈ x.splitOn '/', Nameable (percentDecodeStr s)) :
    ∃ y, Respelled x y ∧ ¬SameAuthorization x y := by
  obtain ⟨before, a, after, hsplit, hname, hlater⟩ := exists_last h
  have hslash : ∀ s ∈ before ++ a :: after, '/' ∉ s := fun s hs =>
    slash_not_mem_splitOn (hsplit ▸ hs)
  have hx : x = ['/'].intercalate (before ++ a :: after) := by
    rw [← hsplit, List.intercalate_splitOn]
  have hbefore : ∀ s ∈ before, '/' ∉ s := fun s hs => hslash s (List.mem_append_left _ hs)
  have hafter : ∀ s ∈ after, '/' ∉ s := fun s hs => hslash s (by simp [hs])
  have hrespelled : ∀ c, '/' ∉ c → percentDecodeStr a = percentDecodeStr c →
      Respelled x (['/'].intercalate (before ++ c :: after)) := by
    intro c hc hdecode
    rw [Respelled, hsplit, splitOn_around hbefore hafter hc]
    have hsame : ∀ l : List Text,
        List.Forall₂ (fun a b => percentDecodeStr a = percentDecodeStr b) l l := fun l =>
      List.forall₂_same.mpr fun _ _ => rfl
    exact List.rel_append (hsame before) (.cons hdecode (hsame after))
  obtain ⟨hnil, -, hpercent, hdslash, -⟩ := id hname
  by_cases hraw : percentDecodeStr a = a
  · -- The segment is spelled as itself: encode every byte of it.
    rw [hraw] at hname hnil
    refine ⟨_, hrespelled (percentEncode a) (percentEncode_no_slash a) ?_, ?_⟩
    · rw [hraw, percentDecodeStr_percentEncode]
    · obtain ⟨rest, hrest⟩ := percentEncode_head hnil
      rw [hx]
      exact not_sameAuthorization (Or.inl (toldApart_of_spelling hbefore hafter
        (percentEncode_no_slash a) hlater hname (by rw [hrest]; exact List.mem_cons_self)))
  · refine ⟨_, hrespelled (percentDecodeStr a) hdslash ?_, ?_⟩
    · rw [percentDecodeStr_no_percent hpercent]
    · rw [hx]
      exact not_sameAuthorization (Or.inr (toldApart_of_spelling hbefore hafter
        (hslash a (by simp)) hlater hname (percent_mem_of_decode_ne hraw)))

/-- A request is authorized in one way in all orders of its captures exactly when it is free of the
order, as it is where the captures are at most one or the texts are settled.  Requests that are free
of it are authorized like those to all spellings of their path exactly when none of its segments
decodes to a text that a literal segment of a pattern can name, and like those to one comparable
path exactly when patterns cannot tell the cleaned segments of the two apart. -/
theorem attributes_respelled_iff (x : Text) :
    (∀ cfg (req : Request) identity,
      ((∀ iter iter' : Iteration, outcome (attributes iter cfg { req with path := x } identity) =
        outcome (attributes iter' cfg { req with path := x } identity)) ↔
        OrderFree cfg { req with path := x })) ∧
    (∀ cfg (req : Request), (∀ endpoint captures mapping,
        matchedEndpoint x cfg.endpoints = some (endpoint, captures) →
        endpoint.mappings.find? (·.accepts req.method) = some mapping →
        ∀ rule ∈ mapping.resources, ∀ rewrite,
          endpointRewrites { req with path := x } rule.rewrites = .ok rewrite →
          OrderSettled { req with path := x } captures rule.resourceAttributes
            (rewrite.head?.getD ([], [], []))) →
      OrderFree cfg { req with path := x }) ∧
    ((∀ y, Respelled x y → SameAuthorization x y) ↔
      ∀ s ∈ x.splitOn '/', ¬Nameable (percentDecodeStr s)) ∧
    ∀ y, Comparable x y →
      (SameAuthorization x y ↔ List.Forall₂ Alike (cleanParts x) (cleanParts y)) := by
  refine ⟨fun cfg req identity => outcome_orderFree_iff _ _ _, ?_, ⟨fun h s hs hname => ?_, ?_⟩,
    fun y => sameAuthorization_iff_alike⟩
  · intro cfg req h endpoint captures mapping hmatched hmapping _ rule hrule rewrite hrewrite
    exact (h endpoint captures mapping hmatched hmapping rule hrule rewrite hrewrite).orderFree
  · obtain ⟨y, hxy, hdiffer⟩ := exists_respelled ⟨s, hs, hname⟩
    exact hdiffer (h y hxy)
  · exact fun h y hxy => sameAuthorization_of_not_nameable hxy h

def jobsConfig : AuthorizationConfig := postOnly "/api/jobs".toList

/-- `GET` is refused on the path as it is written, and on another spelling of it the request falls
through to the rule for paths, whatever the orders of the captures, of which there are none. -/
theorem attributes_respelled_differ :
    Respelled "/api/jobs".toList "/api/%6Aobs".toList ∧
    validateAuthorizationConfig jobsConfig = .ok () ∧
    (∀ endpoint ∈ jobsConfig.endpoints, '%' ∉ endpoint.path) ∧
    OrderFree jobsConfig ⟨"GET".toList, "/api/jobs".toList, none, []⟩ ∧
    ∀ iter iter' : Iteration, outcome (attributes iter jobsConfig
        ⟨"GET".toList, "/api/jobs".toList, none, []⟩ ⟨"alice".toList, []⟩) ≠
      outcome (attributes iter' jobsConfig
        ⟨"GET".toList, "/api/%6Aobs".toList, none, []⟩ ⟨"alice".toList, []⟩) := by
  have hsegments : "/api/jobs".toList.splitOn '/' = [[], "api".toList, "jobs".toList] ∧
      "/api/%6Aobs".toList.splitOn '/' = [[], "api".toList, "%6Aobs".toList] := by decide +kernel
  refine ⟨?_, by decide +kernel, by decide +kernel, postOnly_orderFree _ _, ?_⟩
  · rw [Respelled, hsegments.1, hsegments.2]
    exact .cons rfl (.cons rfl (.cons (by decide +kernel) .nil))
  · have hraw : (endpointMatch "/api/jobs".toList "/api/jobs".toList).isSome = true := by
      decide +kernel
    have hencoded : endpointMatch "/api/jobs".toList "/api/%6Aobs".toList = none := by
      decide +kernel
    exact postOnly_outcome_ne hraw hencoded _

end KubeRbacProxy
