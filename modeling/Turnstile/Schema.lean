import Turnstile.Migration

/-! The schema for users, roles, permissions and tokens. -/

namespace Turnstile

/-- Users, roles with permissions, and the state of tokens. -/
def authMigration : Migration where
  version := 20260101000000
  description := "auth"
  sql := String.intercalate "\n" [
    "-- Users, roles/permissions and token state.",
    "",
    "CREATE TABLE users (",
    "    id            uuid PRIMARY KEY DEFAULT gen_random_uuid(),",
    "    email         text NOT NULL UNIQUE,",
    "    name          text,",
    "    password_hash text,",
    "    created_at    timestamptz NOT NULL DEFAULT now()",
    ");",
    "",
    "CREATE TABLE roles (",
    "    id   uuid PRIMARY KEY DEFAULT gen_random_uuid(),",
    "    name text NOT NULL UNIQUE",
    ");",
    "",
    "CREATE TABLE permissions (",
    "    id          uuid PRIMARY KEY DEFAULT gen_random_uuid(),",
    "    name        text NOT NULL UNIQUE,",
    "    resource    text NOT NULL,",
    "    http_method text NOT NULL,",
    "    UNIQUE (resource, http_method)",
    ");",
    "",
    "CREATE TABLE role_permissions (",
    "    role_id       uuid NOT NULL REFERENCES roles (id) ON DELETE CASCADE,",
    "    permission_id uuid NOT NULL REFERENCES permissions (id) ON DELETE CASCADE,",
    "    PRIMARY KEY (role_id, permission_id)",
    ");",
    "",
    "CREATE TABLE user_roles (",
    "    user_id uuid NOT NULL REFERENCES users (id) ON DELETE CASCADE,",
    "    role_id uuid NOT NULL REFERENCES roles (id) ON DELETE CASCADE,",
    "    PRIMARY KEY (user_id, role_id)",
    ");",
    "",
    "-- One live refresh token per user; the raw token is never stored.",
    "CREATE TABLE refresh_tokens (",
    "    user_id    uuid PRIMARY KEY REFERENCES users (id) ON DELETE CASCADE,",
    "    token_hash text NOT NULL,",
    "    expires_at timestamptz NOT NULL,",
    "    created_at timestamptz NOT NULL DEFAULT now()",
    ");",
    "",
    "-- Revoked access tokens, kept until the token's own expiry.",
    "CREATE TABLE revoked_tokens (",
    "    key        text PRIMARY KEY,",
    "    expires_at timestamptz NOT NULL",
    ");",
    "",
    "CREATE INDEX revoked_tokens_expires_at_idx ON revoked_tokens (expires_at);",
    "",
    "INSERT INTO roles (name) VALUES ('superadmin');",
    ""]

/-- All migrations, in order. -/
def migrations : List Migration := [authMigration]

end Turnstile
