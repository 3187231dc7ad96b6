import QueryExpr.Error

/-!
# How errors are put together

A recipe says in which order errors and contexts are combined and which of them are still in use
elsewhere. An error in use is never changed: as a context it only lends its text.
-/

namespace QueryExpr

inductive Recipe where
  | fresh (e : Error)
  /-- The first error with the second one around it. -/
  | context (inner outer : Recipe)
  /-- An error of which another holder keeps a copy. -/
  | shared (r : Recipe)

structure Assembled where
  error : Error
  inUse : Bool
  /-- What the other holders see, in the order in which the copies were made. -/
  kept : List Error

namespace Recipe

def assemble : Recipe → Assembled
  | fresh e => ⟨e, false, []⟩
  | context inner outer =>
      let i := inner.assemble
      let o := outer.assemble
      ⟨i.error.context o.error o.inUse, false, i.kept ++ o.kept⟩
  | shared r =>
      let p := r.assemble
      ⟨p.error, true, p.kept ++ [p.error]⟩

end Recipe

end QueryExpr
