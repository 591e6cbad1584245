import KubeRbacProxy.Library.Text

/-! The authorization configuration, as it is read from the configuration file.  A field that the
file leaves out has the default of its type: an empty text, an empty list, `false`, or none. -/

namespace KubeRbacProxy

open Library

structure NamedValue where
  name : Text

structure Rewrites where
  byQueryParameter : Option NamedValue := none
  byHttpHeader : Option NamedValue := none

structure ResourceAttributes where
  namespace_ : Text := []
  apiGroup : Text := []
  apiVersion : Text := []
  resource : Text := []
  subresource : Text := []
  name : Text := []
  verb : Text := []

structure UserRule where
  name : Text := []
  groups : List Text := []

structure StaticRule where
  user : UserRule := {}
  verb : Text := []
  namespace_ : Text := []
  apiGroup : Text := []
  resource : Text := []
  subresource : Text := []
  name : Text := []
  resourceRequest : Bool := false
  path : Text := []

structure Rule where
  rewrites : Rewrites := {}
  resourceAttributes : ResourceAttributes := {}

structure Mapping where
  methods : List Text := []
  resources : List Rule := []

structure Endpoint where
  path : Text
  mappings : List Mapping := []

structure AuthorizationConfig where
  rewrites : Option Rewrites := none
  resourceAttributes : Option ResourceAttributes := none
  staticRules : List StaticRule := []
  endpoints : List Endpoint := []

end KubeRbacProxy
