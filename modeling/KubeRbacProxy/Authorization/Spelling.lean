import KubeRbacProxy.Authorization.Endpoint
import Mathlib.Logic.Relation

/-! Spellings of a path.  Matching depends on the cleaned segments of the pattern and of the path
only, so that doubled slashes, dot segments and a slash at the end change nothing in any context. -/

namespace KubeRbacProxy

open Library

/-- The second text spells the path of the first in another way.  `a` and `b` are arbitrary, with
dot segments of their own. -/
inductive Spelling : Text → Text → Prop
  | slash (a b : Text) : Spelling (a ++ '/' :: b) (a ++ '/' :: '/' :: b)
  | dot (a b : Text) : Spelling (a ++ '/' :: b) (a ++ '/' :: '.' :: '/' :: b)
  | parent (a b : Text) {s : Text} (kept : Kept s) (segment : '/' ∉ s) :
      Spelling (a ++ '/' :: b) (a ++ '/' :: (s ++ '/' :: '.' :: '.' :: '/' :: b))
  | trailing (a b : Text) : Spelling (a ++ '/' :: b) (a ++ '/' :: (b ++ ['/']))
  | root (n : Nat) (b : Text) :
      Spelling ('/' :: b) ((List.replicate n ['/', '.', '.']).flatten ++ '/' :: b)

/-- What follows a slash is cleaned behind the segments before it. -/
theorem cleanParts_append (a b : Text) :
    cleanParts (a ++ '/' :: b) = (b.splitOn '/').foldl cleanStep (cleanParts a) := by
  rw [cleanParts, List.splitOn_append_cons_self, List.foldl_append]
  rfl

theorem foldl_cleanStep_segment {segment : Text} (h : '/' ∉ segment) (b : Text)
    (parts : List Text) : ((segment ++ '/' :: b).splitOn '/').foldl cleanStep parts =
      (b.splitOn '/').foldl cleanStep (cleanStep parts segment) := by
  rw [List.splitOn_append_cons_self, List.splitOn_eq_singleton h]
  rfl

/-- Leading `..` segments find nothing to drop. -/
theorem cleanParts_parents (n : Nat) :
    cleanParts (List.replicate n ['/', '.', '.']).flatten = [] := by
  induction n with
  | zero => rfl
  | succ n ih =>
    rw [List.replicate_succ', List.flatten_append, List.flatten_singleton, cleanParts_append, ih]
    rfl

theorem cleanParts_spelling {x y : Text} (h : Spelling x y) : cleanParts x = cleanParts y := by
  cases h with
  | slash a b =>
    rw [cleanParts_append, cleanParts_append]
    exact (foldl_cleanStep_segment List.not_mem_nil b _).symm
  | dot a b =>
    rw [cleanParts_append, cleanParts_append]
    have hdot : '/' ∉ ['.'] := by decide
    exact (foldl_cleanStep_segment hdot b _).symm
  | parent a b kept segment =>
    rename_i s
    have hpop : ('.' :: '.' :: '/' :: b).splitOn '/' = ['.', '.'] :: b.splitOn '/' := by
      rw [show '.' :: '.' :: '/' :: b = ['.', '.'] ++ '/' :: b from rfl,
        List.splitOn_append_cons_self, List.splitOn_eq_singleton (by decide)]
      rfl
    -- The segment is pushed behind whatever `a` leaves, so that `..` drops it and nothing else.
    have hback : cleanStep (cleanStep (cleanParts a) s) ['.', '.'] = cleanParts a := by
      rw [cleanStep_kept kept]
      exact List.dropLast_concat
    rw [cleanParts_append, cleanParts_append, foldl_cleanStep_segment segment, hpop,
      List.foldl_cons, hback]
  | trailing a b =>
    rw [show a ++ '/' :: (b ++ ['/']) = (a ++ '/' :: b) ++ '/' :: [] by simp,
      cleanParts_append _ []]
    rfl
  | root n b =>
    rw [cleanParts_append, cleanParts_parents]
    exact cleanParts_append [] b

theorem cleanParts_eqvGen {x y : Text} (h : Relation.EqvGen Spelling x y) :
    cleanParts x = cleanParts y := by
  induction h with
  | rel x y h => exact cleanParts_spelling h
  | refl x => rfl
  | symm x y h ih => exact ih.symm
  | trans x y z hxy hyz ihxy ihyz => exact ihxy.trans ihyz

theorem endpointMatch_of_cleanParts {p q x y : Text} (hp : cleanParts p = cleanParts q)
    (hx : cleanParts x = cleanParts y) : endpointMatch p x = endpointMatch q y := by
  have hpattern : comparedParts p = comparedParts q := by rw [comparedParts, hp, comparedParts]
  have hpath : comparedParts x = comparedParts y := by rw [comparedParts, hx, comparedParts]
  rw [endpointMatch_parts, endpointMatch_parts, hpattern, hpath]

/-- Matching does not depend on how the pattern and the path are spelled. -/
theorem endpointMatch_spelling {p q x y : Text} (hp : Relation.EqvGen Spelling p q)
    (hx : Relation.EqvGen Spelling x y) : endpointMatch p x = endpointMatch q y :=
  endpointMatch_of_cleanParts (cleanParts_eqvGen hp) (cleanParts_eqvGen hx)

/-- `/api/../v1/*` with a doubled slash, and a path with a parent segment behind an excess one. -/
theorem endpointMatch_spelling_example :
    endpointMatch "/api/../v1/*".toList "/../v1/jobs".toList =
      endpointMatch "/api/..//v1/*".toList "/../v1/tmp/../jobs/".toList := by
  have hpath : Relation.EqvGen Spelling "/../v1/jobs".toList "/../v1/tmp/../jobs/".toList :=
    .trans _ "/../v1/tmp/../jobs".toList _
      (.rel _ _ (.parent "/../v1".toList "jobs".toList (s := "tmp".toList)
        ⟨by decide, by decide⟩ (by decide)))
      (.rel _ _ (.trailing "/../v1/tmp/..".toList "jobs".toList))
  exact endpointMatch_spelling
    (.rel _ _ (.slash "/api/..".toList "v1/*".toList)) hpath

end KubeRbacProxy
