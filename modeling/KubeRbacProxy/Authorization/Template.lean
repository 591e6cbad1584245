import KubeRbacProxy.Authorization.Endpoint
import KubeRbacProxy.Library.Replace

/-! Expansion of templates, one replacement after another. -/

namespace KubeRbacProxy

open Library

/-- A placeholder: a body in double braces. -/
def placeholder (body : Text) : Text := '{' :: '{' :: (body ++ ['}', '}'])

def valueHole : Text := placeholder " .Value ".toList

def pathParam (k : Text) : Text :=
  placeholder (" index .PathParams \"".toList ++ k ++ "\" ".toList)

def fromHeader : Text := placeholder ".FromHeader".toList
def fromHeaderSpaced : Text := placeholder " .FromHeader ".toList
def fromQueryString : Text := placeholder ".FromQueryString".toList
def fromQueryStringSpaced : Text := placeholder " .FromQueryString ".toList
def fromMethod : Text := placeholder ".FromMethod".toList
def fromMethodSpaced : Text := placeholder " .FromMethod ".toList

/-- `value`, with the captures in the order in which the map is iterated. -/
def value (template v : Text) (captures : Captures) : Text :=
  captures.entries.foldl (fun out capture => replaceAll (pathParam capture.1) capture.2 out)
    (replaceAll valueHole v template)

def endpointValue (template replacement header query method : Text) (captures : Captures) : Text :=
  replaceAll fromMethodSpaced method <|
    replaceAll fromMethod method <|
      replaceAll fromQueryStringSpaced query <|
        replaceAll fromQueryString query <|
          replaceAll fromHeaderSpaced header <|
            replaceAll fromHeader header <|
              value template replacement captures

end KubeRbacProxy
