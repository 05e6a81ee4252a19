import ClientRegistry.Client.Basic

/-! The well-known grant types and authentication methods. Any other name that is not empty is a
token too. -/

namespace ClientRegistry

def grantTypes : List (String × Value) :=
  [("AUTHORIZATION_CODE", authorizationCode), ("REFRESH_TOKEN", .token .grantType (.text "refresh_token")),
    ("CLIENT_CREDENTIALS", .token .grantType (.text "client_credentials")),
    ("PASSWORD", .token .grantType (.text "password")),
    ("JWT_BEARER", .token .grantType (.text "urn:ietf:params:oauth:grant-type:jwt-bearer"))]

def authMethods : List (String × Value) :=
  [("CLIENT_SECRET_BASIC", clientSecretBasic),
    ("CLIENT_SECRET_POST", .token .authMethod (.text "client_secret_post")),
    ("CLIENT_SECRET_JWT", .token .authMethod (.text "client_secret_jwt")),
    ("PRIVATE_KEY_JWT", .token .authMethod (.text "private_key_jwt")), ("NONE", noneMethod)]

end ClientRegistry
