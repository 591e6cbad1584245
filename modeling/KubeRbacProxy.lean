import KubeRbacProxy.Library.Percent
import KubeRbacProxy.Library.ReviewCache
import KubeRbacProxy.Types
import KubeRbacProxy.Config
import KubeRbacProxy.Http
import KubeRbacProxy.Kube.Client
import KubeRbacProxy.Kube.AccessCache
import KubeRbacProxy.Kube.TokenCache
import KubeRbacProxy.Authn
import KubeRbacProxy.CertAuth
import KubeRbacProxy.Library.Replace
import KubeRbacProxy.Authorization.Endpoint
import KubeRbacProxy.Authorization.Template
import KubeRbacProxy.Authorization.Attributes
import KubeRbacProxy.Proxy.Session
import KubeRbacProxy.Authorization.Injection
import KubeRbacProxy.Authorization.Validate
import KubeRbacProxy.Proxy.Filter
import KubeRbacProxy.Proxy.Mediation
import KubeRbacProxy.Library.Segments
import KubeRbacProxy.Proxy.Bypass
import KubeRbacProxy.Proxy.Headers
import KubeRbacProxy.Authorization.Encoding
import KubeRbacProxy.Library.Jwt
import KubeRbacProxy.Oidc.Authenticator
import KubeRbacProxy.Oidc.Acceptance
import KubeRbacProxy.Main
import KubeRbacProxy.Composition
import KubeRbacProxy.Authorization.StaticRules
import KubeRbacProxy.Library.Glob
import KubeRbacProxy.Proxy.Patterns
import KubeRbacProxy.Authorization.Matching
import KubeRbacProxy.Authorization.Rewriting
import KubeRbacProxy.Proxy.ClientErrors
import KubeRbacProxy.Kube.RateLimit
import KubeRbacProxy.Oidc.KeyRotation
import KubeRbacProxy.Library.ReviewOrder
import KubeRbacProxy.Kube.StoreOrder
import KubeRbacProxy.Authorization.Spelling
import KubeRbacProxy.Library.Split
import KubeRbacProxy.Proxy.Groups
import KubeRbacProxy.Library.Float
import KubeRbacProxy.Main.Validate
import KubeRbacProxy.Kube.Limiter
import KubeRbacProxy.Oidc.Completeness
import KubeRbacProxy.Oidc.Mapping
import KubeRbacProxy.Library.Pool
import KubeRbacProxy.Library.ReviewHistory
import KubeRbacProxy.Oidc.TokenHistory
import KubeRbacProxy.Proxy.Calls
import KubeRbacProxy.Server.Backend
import KubeRbacProxy.Server.Sequential
import KubeRbacProxy.Server.Counter
import KubeRbacProxy.Library.Progress
import KubeRbacProxy.Server.Progress
import KubeRbacProxy.Library.ReviewLoad
import KubeRbacProxy.Library.Occupancy
import KubeRbacProxy.Server.Load
import KubeRbacProxy.Proxy.Policy
import KubeRbacProxy.Authorization.Defects
import KubeRbacProxy.Kube.Configuration
import KubeRbacProxy.Proxy.Upstream
import KubeRbacProxy.Tls.Provider
import KubeRbacProxy.Main.Startup
import KubeRbacProxy.Server.Started
import KubeRbacProxy.Authorization.Query
import KubeRbacProxy.Library.Revocation
import KubeRbacProxy.Server.Revocation
import KubeRbacProxy.Server.Identity
import KubeRbacProxy.Oidc.KeyRemoval
import KubeRbacProxy.Server.KeyRemoval
