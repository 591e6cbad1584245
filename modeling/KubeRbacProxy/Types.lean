import KubeRbacProxy.Library.Text

/-! Identities and the attributes of an authorization request. -/

namespace KubeRbacProxy

open Library

structure Identity where
  name : Text
  groups : List Text
  deriving DecidableEq, Repr

structure Attributes where
  user : Identity
  verb : Text
  namespace_ : Text
  apiGroup : Text
  apiVersion : Text
  resource : Text
  subresource : Text
  name : Text
  resourceRequest : Bool
  path : Text
  deriving DecidableEq, Repr

end KubeRbacProxy
