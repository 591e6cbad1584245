import KubeRbacProxy.CertAuth
import KubeRbacProxy.Oidc.Authenticator

/-! The authenticators that `main` builds from its arguments: client certificates, OIDC, and token
reviews, each where it is configured. -/

namespace KubeRbacProxy

open Library

structure Args where
  clientCaFile : Option Text := none
  oidcIssuer : Option Text := none
  oidcClientId : Option Text := none
  oidcUsernameClaim : Text := "email".toList
  oidcUsernamePrefix : Text := []
  oidcGroupsClaim : Text := "groups".toList
  oidcGroupsPrefix : Text := []
  oidcSignAlg : List Text := ["RS256".toList]
  oidcCaFile : Option Text := none
  authTokenAudiences : List Text := []

/-- What the authenticators meet when they are asked: their caches, their clocks, and the answers
of the issuer and of the API server. -/
structure Surroundings (lib : Jwt) where
  keyCache : KeyCache lib
  call : TokenCall
  tokenCache : ReviewCache.Table Text (Option Identity)
  now : Nat
  post : ReviewBody TokenSpec → Attempts TokenResponse
  later : Nat

def configuredOidc (args : Args) (buildClient : Option Text → Except Text Unit) :
    Except Text (Option OidcAuthenticator) :=
  match args.oidcIssuer with
  | none => .ok none
  | some issuer =>
    (OidcAuthenticator.new issuer (args.oidcClientId.getD []) args.oidcUsernameClaim
      args.oidcUsernamePrefix args.oidcGroupsClaim args.oidcGroupsPrefix args.oidcSignAlg
      (buildClient args.oidcCaFile)).map some

variable {lib : Jwt}

def oidcAlone (auth : OidcAuthenticator) (s : Surroundings lib) : Authenticator := fun request =>
  (oidcAuthenticate lib auth s.keyCache s.call request).1

def tokenAlone (args : Args) (s : Surroundings lib) : Authenticator := fun request =>
  (tokenAuthenticate args.authTokenAudiences s.tokenCache request s.now s.post s.later).1

def authenticators (args : Args) (oidc : Option OidcAuthenticator) (kubeClient : Bool)
    (s : Surroundings lib) : List Authenticator :=
  (if args.clientCaFile.isSome then [certAuthenticate []] else []) ++
    (oidc.toList.map fun auth => oidcAlone auth s) ++
    (if kubeClient then [tokenAlone args s] else [])

def mainChain (args : Args) (buildClient : Option Text → Except Text Unit) (kubeClient : Bool)
    (s : Surroundings lib) : Except Text (List Authenticator) :=
  (configuredOidc args buildClient).map fun oidc => authenticators args oidc kubeClient s

end KubeRbacProxy
